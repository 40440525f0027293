import AigentSquad.KeptAnswers
import AigentSquad.TimelineOrder

/-!
# Which answers an investigation survives

After the specialists have answered and the synthesizer has, an investigation is
a function of the texts. It takes for granted what types the fields have.
-/

set_option autoImplicit false

namespace AigentSquad.SurvivedAnswers
open AigentSquad.PyText AigentSquad.PyJson AigentSquad.Interaction AigentSquad.Postcondition
open AigentSquad.Investigation AigentSquad.Confidence AigentSquad.EvidenceExchange
open AigentSquad.Effects AigentSquad.GenericAgent AigentSquad.KeptAnswers
open AigentSquad.LoweredConfidence AigentSquad.RunInvestigation AigentSquad.TimelineOrder
open AigentSquad.FallibleSort

/-- What the specialists answered, by name. -/
abbrev Answers := List (Str × Except Exn ConversationMessage)

/-! ### The evidence -/

section Evidence
variable (py : Runtime)

/-- No integer of the list is longer than `int` reads. -/
def WithinDigits (text : Str) : Prop :=
  ∀ list, bracketed (strip text) = some list → loads py list ≠ .error .ValueError

theorem parse_evidence_ok_iff (text source_agent : Str) :
    (∃ items, parse_evidence py text source_agent = .ok items) ↔ WithinDigits py text := by
  unfold WithinDigits parse_evidence
  dsimp only
  cases bracketed (strip text) with
  | none => simp
  | some list =>
    simp only [Option.some.injEq, forall_eq']
    cases loads py list with
    | error e => cases e <;> simp
    | ok value =>
      dsimp only
      cases iterated value <;> simp

/-- The items that one answer reports. -/
def items_of : Str × Except Exn ConversationMessage → List Item
  | (_, .error _) => []
  | (name, .ok message) => (parse_evidence py message.content name).toOption.getD []

def reported (answers : Answers) : List Item := answers.flatMap (items_of py)

def AllWithinDigits (answers : Answers) : Prop :=
  ∀ name message, (name, Except.ok message) ∈ answers → WithinDigits py message.content

theorem within_digits_cons (name : Str) (message : ConversationMessage) (answers : Answers) :
    AllWithinDigits py ((name, .ok message) :: answers) ↔
      WithinDigits py message.content ∧ AllWithinDigits py answers := by
  simp only [AllWithinDigits, List.mem_cons]
  constructor
  · intro h
    exact ⟨h name message (.inl rfl), fun n m hm => h n m (.inr hm)⟩
  · rintro ⟨hfirst, hrest⟩ n m (heq | hm)
    · cases heq
      exact hfirst
    · exact hrest n m hm

theorem collected_iff (answers : Answers) (collected : List Item) :
    collected_evidence py answers = .ok collected ↔
      AllWithinDigits py answers ∧ collected = reported py answers := by
  induction answers generalizing collected with
  | nil => simp [collected_evidence, AllWithinDigits, reported, eq_comm]
  | cons answer answers ih =>
    obtain ⟨name, r⟩ := answer
    cases r with
    | error x =>
      have hdigits : AllWithinDigits py ((name, .error x) :: answers) ↔
          AllWithinDigits py answers := by
        simp [AllWithinDigits]
      have hreported : reported py ((name, .error x) :: answers) = reported py answers := by
        rw [reported, List.flatMap_cons]
        rfl
      rw [collected_evidence, ih, hdigits, hreported]
    | ok message =>
      rw [within_digits_cons, ← parse_evidence_ok_iff py message.content name, collected_evidence,
        reported, List.flatMap_cons, items_of]
      cases hparse : parse_evidence py message.content name with
      | error x => simp [bind, Except.bind]
      | ok items =>
        have hitems : (∃ more, Except.ok items = (.ok more : Except Exn (List Item))) := ⟨items, rfl⟩
        constructor
        · intro h
          obtain ⟨_, hfirst, h⟩ := bind_eq_ok h
          cases hfirst
          obtain ⟨more, hmore, h⟩ := bind_eq_ok h
          cases h
          obtain ⟨hall, rfl⟩ := (ih more).mp hmore
          exact ⟨⟨hitems, hall⟩, rfl⟩
        · rintro ⟨⟨_, hall⟩, rfl⟩
          have hmore := (ih _).mpr ⟨hall, rfl⟩
          simp only [bind, Except.bind, hmore]
          rfl

end Evidence

/-! ### The timeline -/

section Timeline
variable [Values] (py : Runtime)

/-- How the interpreter orders the values of JSON: two of them compare both ways or not at
all, and those that compare are ordered. -/
def OrderedValues : Prop := Lawful (fun s t : Json => Values.lt s t) (fun _ => True)

/-- The types that the timeline and the confidence take for granted. -/
structure WellTyped (evidences : List Item) : Prop where
  timestamps : (evidences.filter timed).Pairwise (Comparable earlier_item)
  summaries : ∀ e ∈ evidences, timed e = true → is_text e.summary = true
  signal_types : ∀ e ∈ evidences, hashable e.signal_type = true

theorem built_ok_iff (hvalues : OrderedValues) (evidences : List Item) :
    (∃ built, build_timeline py evidences = .ok built) ↔
      (evidences.filter timed).Pairwise (Comparable earlier_item) ∧
        ∀ e ∈ evidences, timed e = true → is_text e.summary = true := by
  have laws : Lawful earlier_item (fun _ => True) := hvalues.comap _ Evidence.timestamp
  rw [← sort_ok_iff laws _ (fun _ _ => trivial)]
  constructor
  · rintro ⟨built, hbuilt⟩
    obtain ⟨sorted, hsorted, htexts, _⟩ := (build_timeline_ok_iff py evidences built).mp hbuilt
    exact ⟨⟨sorted, hsorted⟩, htexts⟩
  · rintro ⟨⟨sorted, hsorted⟩, htexts⟩
    exact ⟨_, (build_timeline_ok_iff py evidences _).mpr ⟨sorted, hsorted, htexts, rfl⟩⟩

theorem built_timeline (evidences : List Item) (built : List Item × List Item)
    (h : build_timeline py evidences = .ok built) :
    built.1 = evidences.map (annotated py) ∧ built.2.Subperm (built.1.filter timed) := by
  obtain ⟨sorted, hsorted, _, rfl⟩ := (build_timeline_ok_iff py evidences built).mp h
  refine ⟨rfl, ?_⟩
  have htimed : (evidences.map (annotated py)).filter timed =
      (evidences.filter timed).map (annotated py) := List.filter_map
  dsimp only
  rw [htimed]
  exact ((sort_perm _ _ _ hsorted).map _).subperm

/-! ### The synthesizer's answer -/

/-- The object between the braces, if there is one. -/
def answered_object (response : Str) : Option (List (Str × Json)) :=
  match find '\x7b' response with
  | none => none
  | some start =>
    match loads py (braced response start) with
    | .ok (.obj pairs) => some pairs
    | _ => none

/-- What `0 <= i < n` and `evidence[i]` take. -/
def is_index (n : ℕ) : Json → Bool
  | .int _ => true
  | .bool _ => true
  | .float text => !Values.within text n
  | _ => false

def named (evidences : List Item) : Json → Option Item
  | .int i => if 0 ≤ i then evidences[i.toNat]? else none
  | .bool b => evidences[b.toNat]?
  | _ => none

open Classical in
/-- No item is named more often than it occurs. -/
def NamedWithin (evidences : List Item) (indices : List Json) : Prop :=
  ∀ e, indices.countP (fun i => named evidences i = some e) ≤ evidences.count e

/-- A text for a hypothesis, and indices of different items. -/
structure Concludes (evidences : List Item) (pairs : List (Str × Json)) : Prop where
  hypothesis : ∀ j, Json.get pairs "hypothesis".toList = some j → is_text j = true
  indices : ∀ j, Json.get pairs "contradicting_evidence_indices".toList = some j →
    j.truthy = true → ∃ items, j = .arr items ∧
      (∀ i ∈ items, is_index evidences.length i = true) ∧ NamedWithin evidences items

theorem at_index_eq (evidences : List Item) (i : Json) :
    at_index evidences i =
      if is_index evidences.length i then .ok (named evidences i) else .error .TypeError := by
  cases i with
  | float text =>
    rw [at_index, is_index]
    cases Values.within text evidences.length <;> rfl
  | _ => rfl

theorem at_indices (evidences : List Item) (indices : List Json) :
    indices.mapM (at_index evidences) =
      if indices.all (is_index evidences.length) then .ok (indices.map (named evidences))
      else .error .TypeError := by
  induction indices with
  | nil => rfl
  | cons i indices ih =>
    rw [List.mapM_cons, ih, at_index_eq, List.all_cons]
    cases is_index evidences.length i <;> cases indices.all (is_index evidences.length) <;> rfl

theorem contradicting_items_iff (evidences : List Item) (j : Json) (found : List Item) :
    contradicting_items evidences j = .ok found ↔
      ∃ indices, iterated j = some indices ∧
        (∀ i ∈ indices, is_index evidences.length i = true) ∧
        found = indices.filterMap (named evidences) := by
  unfold contradicting_items
  cases iterated j with
  | none => simp
  | some indices =>
    simp only [Option.some.injEq, exists_eq_left', ← List.all_eq_true]
    rw [at_indices]
    cases indices.all (is_index evidences.length) with
    | false => simp [bind, Except.bind]
    | true => simp [bind, Except.bind, eq_comm]

omit [Values] in
theorem subperm_named_iff (evidences : List Item) (indices : List Json) :
    (indices.filterMap (named evidences)).Subperm evidences ↔ NamedWithin evidences indices := by
  classical
  rw [List.subperm_iff_count]
  refine forall_congr' (fun e => ?_)
  have hnames : ∀ i, (named evidences i == some e) = decide (named evidences i = some e) := by
    intro i
    rw [Bool.eq_iff_iff, beq_iff_eq, decide_eq_true_eq]
  simp only [List.count_filterMap, hnames]

omit [Values] in
theorem braced_cases (response : Str) (start : ℕ) (h : find '\x7b' response = some start) :
    braced response start = [] ∨ ∃ rest, braced response start = '\x7b' :: rest := by
  unfold braced
  split
  · next stop _ =>
    by_cases hle : start ≤ stop
    · exact .inr (slice_head _ response start stop h hle)
    · refine .inl (List.drop_eq_nil_of_le ?_)
      rw [List.length_take]
      omega
  · exact .inl rfl

omit [Values] in
theorem loads_nil (v : Json) : loads py [] ≠ .ok v := by
  intro h
  cases h

omit [Values] in
/-- Whatever the text is, it is read: as an object, or as no synthesis at all. -/
theorem parse_synthesis_total (response : Str) :
    ∃ v, parse_synthesis py response = .ok v ∧
      ((∃ pairs, answered_object py response = some pairs ∧ v = read_synthesis pairs) ∨
        answered_object py response = none ∧ is_text v.hypothesis = true ∧
          v.contradicting_indices = .arr []) := by
  unfold parse_synthesis answered_object
  cases hstart : find '\x7b' response with
  | none => exact ⟨_, rfl, .inr ⟨rfl, rfl, rfl⟩⟩
  | some start =>
    dsimp only
    cases hloads : loads py (braced response start) with
    | error e => exact ⟨_, rfl, .inr ⟨rfl, rfl, rfl⟩⟩
    | ok v =>
      rcases braced_cases response start hstart with hnil | ⟨rest, hrest⟩
      · rw [hnil] at hloads
        exact absurd hloads (loads_nil py v)
      · rw [hrest] at hloads
        obtain ⟨pairs, rfl⟩ := loads_brace py rest v hloads
        exact ⟨_, rfl, .inl ⟨pairs, rfl, rfl⟩⟩

theorem not_index_texts (evidences : List Item) (texts : List Str) (hne : texts ≠ []) :
    ¬ ∀ i ∈ texts.map Json.str, is_index evidences.length i = true := by
  intro h
  obtain ⟨t, texts, rfl⟩ := List.exists_cons_of_ne_nil hne
  cases h (.str t) (by simp)

/-- Only a list is iterated without an exception, unless nothing is listed. -/
theorem listed_ok_iff (evidences : List Item) (j : Json) (found : List Item)
    (hj : j.truthy = true) :
    contradicting_items evidences j = .ok found ↔
      ∃ indices, j = .arr indices ∧ (∀ i ∈ indices, is_index evidences.length i = true) ∧
        found = indices.filterMap (named evidences) := by
  rw [contradicting_items_iff]
  cases j with
  | arr indices => simp [iterated]
  | str s =>
    have hne : s ≠ [] := by simpa [Json.truthy] using hj
    have hnot := not_index_texts evidences (s.map (fun c => [c])) (by simpa using hne)
    rw [List.map_map] at hnot
    simp only [iterated, reduceCtorEq, false_and, exists_false, iff_false, not_exists, not_and]
    rintro indices hindices hall
    cases hindices
    exact absurd hall hnot
  | obj pairs =>
    have hne : pairs ≠ [] := by
      rintro rfl
      cases hj
    have hnot := not_index_texts evidences (pairs.map Prod.fst) (by simpa using hne)
    rw [List.map_map] at hnot
    simp only [iterated, reduceCtorEq, false_and, exists_false, iff_false, not_exists, not_and]
    rintro indices hindices hall
    cases hindices
    exact absurd hall hnot
  | _ => simp [iterated]

theorem no_items (evidences : List Item) : contradicting_items evidences (.arr []) = .ok [] := rfl

/-- The hypothesis and the items of an answer, as far as they are ones. -/
def Concluded (evidences : List Item) (v : Synthesis) : Prop :=
  is_text v.hypothesis = true ∧
    ∃ found, contradicting_items evidences v.contradicting_indices = .ok found ∧
      found.Subperm evidences

theorem concluded_iff (evidences : List Item) (pairs : List (Str × Json)) :
    Concluded evidences (read_synthesis pairs) ↔ Concludes evidences pairs := by
  have hhypothesis : is_text (read_synthesis pairs).hypothesis = true ↔
      ∀ j, Json.get pairs "hypothesis".toList = some j → is_text j = true := by
    change is_text (get_or pairs "hypothesis" _) = true ↔ _
    unfold get_or
    cases Json.get pairs "hypothesis".toList with
    | none => simp [is_text]
    | some j => simp
  have hindices : (∃ found, contradicting_items evidences
      (read_synthesis pairs).contradicting_indices = .ok found ∧ found.Subperm evidences) ↔
      ∀ j, Json.get pairs "contradicting_evidence_indices".toList = some j →
        j.truthy = true → ∃ items, j = .arr items ∧
          (∀ i ∈ items, is_index evidences.length i = true) ∧ NamedWithin evidences items := by
    change (∃ found, contradicting_items evidences
      (or_list (get_or pairs "contradicting_evidence_indices" _)) = .ok found ∧ _) ↔ _
    unfold get_or or_list
    cases Json.get pairs "contradicting_evidence_indices".toList with
    | none => simpa using ⟨[], no_items evidences, List.nil_subperm⟩
    | some j =>
      simp only [Option.getD_some, Option.some.injEq, forall_eq']
      cases hj : j.truthy with
      | false => simpa using ⟨[], no_items evidences, List.nil_subperm⟩
      | true =>
        simp only [if_true, listed_ok_iff evidences j _ hj, forall_const]
        constructor
        · rintro ⟨found, ⟨indices, rfl, hall, rfl⟩, hsub⟩
          exact ⟨indices, rfl, hall, (subperm_named_iff evidences indices).mp hsub⟩
        · rintro ⟨indices, rfl, hall, hwithin⟩
          exact ⟨_, ⟨indices, rfl, hall, rfl⟩, (subperm_named_iff evidences indices).mpr hwithin⟩
  rw [Concluded, hhypothesis, hindices]
  exact ⟨fun h => ⟨h.1, h.2⟩, fun h => ⟨h.hypothesis, h.indices⟩⟩

/-! ### The result -/

/-- A result whose hypothesis is a text, with items of the evidence, none too often. -/
def Survived (r : Except Exn RCAResult) : Prop :=
  ∃ rca, r = .ok rca ∧ is_text rca.hypothesis = true ∧ rca.contradicting.Subperm rca.evidence ∧
    rca.timeline.Subperm (rca.evidence.filter timed)

/-- What the texts have to be like. -/
structure Survivable (answers : Answers) (response : Str) : Prop where
  digits : AllWithinDigits py answers
  evidence : WellTyped (reported py answers)
  answer : ∀ pairs, answered_object py response = some pairs →
    Concludes ((reported py answers).map (annotated py)) pairs

/-- The result of the texts, or the exception. -/
def outcome (answers : Answers) (response : Str) : Except Exn RCAResult := do
  let collected ← collected_evidence py answers
  let built ← build_timeline py collected
  let rca ← fuse py built.1 built.2 response
  logged rca

omit [Values] in
theorem sized_text (j : Json) (h : is_text j = true) : sized j = true := by
  cases j with
  | str s => rfl
  | _ => cases h

theorem correlate_ok_iff (evidences contradicting : List Item) :
    (∃ confidence, correlate evidences contradicting = .ok confidence) ↔
      ∀ e ∈ evidences, hashable e.signal_type = true := by
  rw [correlate, ← List.all_eq_true]
  split
  · next h => exact ⟨fun _ => h, fun _ => ⟨_, rfl⟩⟩
  · next h => exact ⟨fun ⟨_, hok⟩ => absurd hok (by simp), fun hall => absurd hall h⟩

theorem fuse_iff (evidences timeline : List Item) (response : Str) (rca : RCAResult) :
    fuse py evidences timeline response = .ok rca ↔
      ∃ v found confidence, parse_synthesis py response = .ok v ∧
        contradicting_items evidences v.contradicting_indices = .ok found ∧
        correlate evidences found = .ok confidence ∧
        rca = rca_result evidences timeline v found confidence := by
  constructor
  · intro h
    obtain ⟨v, hv, h⟩ := bind_eq_ok h
    obtain ⟨found, hfound, h⟩ := bind_eq_ok h
    obtain ⟨confidence, hconfidence, h⟩ := bind_eq_ok h
    cases h
    exact ⟨v, found, confidence, hv, hfound, hconfidence, rfl⟩
  · rintro ⟨v, found, confidence, hv, hfound, hconfidence, rfl⟩
    rw [fuse, hv]
    simp only [bind, Except.bind, hfound, hconfidence]

theorem fused_concluded_iff (evidences timeline : List Item) (response : Str) (v : Synthesis)
    (hv : parse_synthesis py response = .ok v)
    (htimeline : timeline.Subperm (evidences.filter timed)) :
    Survived (fuse py evidences timeline response >>= logged) ↔
      (∀ e ∈ evidences, hashable e.signal_type = true) ∧ Concluded evidences v := by
  constructor
  · rintro ⟨rca, hrca, htext, hsub, _⟩
    obtain ⟨rca', hfuse, hlogged⟩ := bind_eq_ok hrca
    rw [logged] at hlogged
    split at hlogged
    · cases hlogged
      obtain ⟨v', found, confidence, hv', hfound, hconfidence, rfl⟩ :=
        (fuse_iff py evidences timeline response rca).mp hfuse
      rw [hv, Except.ok.injEq] at hv'
      subst hv'
      exact ⟨(correlate_ok_iff evidences found).mp ⟨confidence, hconfidence⟩, htext, found,
        hfound, hsub⟩
    · cases hlogged
  · rintro ⟨hhashable, htext, found, hfound, hsub⟩
    obtain ⟨confidence, hconfidence⟩ := (correlate_ok_iff evidences found).mpr hhashable
    have hfuse := (fuse_iff py evidences timeline response _).mpr
      ⟨v, found, confidence, hv, hfound, hconfidence, rfl⟩
    refine ⟨rca_result evidences timeline v found confidence, ?_, htext, hsub, htimeline⟩
    rw [hfuse]
    exact if_pos (sized_text v.hypothesis htext)

theorem fused_survives_iff (evidences timeline : List Item) (response : Str)
    (htimeline : timeline.Subperm (evidences.filter timed)) :
    Survived (fuse py evidences timeline response >>= logged) ↔
      (∀ e ∈ evidences, hashable e.signal_type = true) ∧
        ∀ pairs, answered_object py response = some pairs → Concludes evidences pairs := by
  obtain ⟨v, hv, hcases⟩ := parse_synthesis_total py response
  rw [fused_concluded_iff py evidences timeline response v hv htimeline]
  refine and_congr_right (fun _ => ?_)
  rcases hcases with ⟨pairs, hpairs, rfl⟩ | ⟨hnone, htext, hindices⟩
  · rw [hpairs, concluded_iff]
    simp
  · rw [hnone]
    simp only [reduceCtorEq, false_implies, implies_true, iff_true]
    refine ⟨htext, [], ?_, List.nil_subperm⟩
    rw [hindices]
    exact no_items evidences

theorem outcome_survives_iff (hvalues : OrderedValues) (answers : Answers) (response : Str) :
    Survived (outcome py answers response) ↔ Survivable py answers response := by
  have hfields : ∀ evidences : List Item,
      (∀ e ∈ evidences.map (annotated py), hashable e.signal_type = true) ↔
        ∀ e ∈ evidences, hashable e.signal_type = true := by
    intro evidences
    rw [List.forall_mem_map]
    rfl
  constructor
  · rintro ⟨rca, hrca, hrest⟩
    obtain ⟨collected, hcollected, htail⟩ := bind_eq_ok hrca
    obtain ⟨built, hbuilt, hfused⟩ := bind_eq_ok htail
    obtain ⟨hdigits, rfl⟩ := (collected_iff py answers collected).mp hcollected
    obtain ⟨hmarked, htimeline⟩ := built_timeline py _ built hbuilt
    obtain ⟨hsorted, htexts⟩ := (built_ok_iff py hvalues _).mp ⟨built, hbuilt⟩
    obtain ⟨hhashable, hanswer⟩ := (fused_survives_iff py built.1 built.2 response htimeline).mp
      ⟨rca, hfused, hrest⟩
    rw [hmarked] at hhashable hanswer
    exact ⟨hdigits, ⟨hsorted, htexts, (hfields _).mp hhashable⟩, hanswer⟩
  · intro h
    have hcollected := (collected_iff py answers _).mpr ⟨h.digits, rfl⟩
    obtain ⟨built, hbuilt⟩ := (built_ok_iff py hvalues (reported py answers)).mpr
      ⟨h.evidence.timestamps, h.evidence.summaries⟩
    obtain ⟨hmarked, htimeline⟩ := built_timeline py _ built hbuilt
    have hsurvived := (fused_survives_iff py built.1 built.2 response htimeline).mpr
      (by rw [hmarked]; exact ⟨(hfields _).mpr h.evidence.signal_types, h.answer⟩)
    have houtcome : outcome py answers response =
        (fuse py built.1 built.2 response >>= logged) := by
      rw [outcome, hcollected]
      simp only [bind, Except.bind, hbuilt]
    rwa [houtcome]

/-! ### Both halves of an investigation -/

/-- Up to the answers of the specialists. -/
def gathered (s : Settings) (inv : Investigation) : M (Str × Answers) := do
  let symptom ← scanInput inv.symptom (scan_ids inv)
  let id ← (.request Ask.uuid4 : M Str)
  let chosen := chosen_agents inv.agents inv.relevant_agent_names
  let call := collection_call symptom inv.user_id inv.session_id id inv.model_id_override
  let specialists ← .ofExcept (chosen.mapM (agent_named py inv.agents))
  let results ← gather (specialists.map (fun ag => process_request py s ag call))
  .ofExcept (refuse_blocked results)
  pure (symptom, chosen.zip results)

/-- From the answers on. -/
def concluding (inv : Investigation) (symptom : Str) (answers : Answers) : M RCAResult := do
  let collected ← .ofExcept (collected_evidence py answers)
  let built ← .ofExcept (build_timeline py collected)
  let rca ← synthesize_rca py symptom inv.user_id inv.session_id built.1 built.2
  .ofExcept (logged rca)

theorem run_investigation_halves (s : Settings) (inv : Investigation) :
    run_investigation py s inv =
      (gathered py s inv).bind (fun c => concluding py inv c.1 c.2) := by
  simp only [run_investigation, gathered, concluding, bind, pure, Prog.bind_assoc, Prog.bind_ok]

/-- Every call of the model was answered with the text. -/
def Replied (tr : List Ev) (response : Str) : Prop :=
  ∀ call answer, .asked (Ask.invoke call) answer ∈ tr → answer = Except.ok response

omit [Values] in
theorem gather_ok {α : Type} (ps : List (M α)) (tr : List Ev) (x : Exn) :
    ¬ Path (gather ps) tr (.error x) := by
  induction ps generalizing tr x with
  | nil => simp [gather]
  | cons p ps ih =>
    intro h
    rcases (path_bind _ _ _ _).mp h with ⟨y, hfirst, _⟩ | ⟨r, _, _, _, _, hrest⟩
    · obtain ⟨_, hends, _⟩ := (path_attempt p _ _).mp hfirst
      cases hends
    · rcases (path_bind _ _ _ _).mp hrest with ⟨y, hraised, _⟩ | ⟨rs, _, _, _, _, hlast⟩
      · exact ih _ _ hraised
      · cases ((path_done _ _ _).mp hlast).2

omit [Values] in
theorem unknown_name (inv : Investigation) (names : List Str) (x : Exn)
    (h : names.mapM (agent_named py inv.agents) = .error x) :
    ∃ name ∈ names, x = key_error py name := by
  induction names with
  | nil => cases h
  | cons name names ih =>
    rw [List.mapM_cons, agent_named] at h
    split at h
    · next ag _ =>
      cases hrest : names.mapM (agent_named py inv.agents) with
      | error y =>
        rw [hrest] at h
        cases h
        obtain ⟨name', hmem, hx⟩ := ih hrest
        exact ⟨name', List.mem_cons_of_mem name hmem, hx⟩
      | ok specialists =>
        rw [hrest] at h
        cases h
    · cases h
      exact ⟨name, List.mem_cons_self, rfl⟩

omit [Values] in
theorem refused_block {α : Type} (results : List (Except Exn α)) (x : Exn)
    (h : refuse_blocked results = .error x) :
    ∃ reason source categories, x = .GuardrailBlockedError reason source categories := by
  unfold refuse_blocked at h
  split at h
  · next block hfound =>
    cases h
    obtain ⟨r, _, hr⟩ := List.exists_of_findSome?_eq_some hfound
    unfold guardrail_block at hr
    split at hr
    · cases hr
      exact ⟨_, _, _, rfl⟩
    · cases hr
  · cases h

omit [Values] in
/-- The answers are missing only if the symptom or an agent is refused, or a name is unknown. -/
theorem gathered_error (s : Settings) (inv : Investigation) (tr : List Ev) (x : Exn)
    (h : Path (gathered py s inv) tr (.error x)) :
    .asked (Ask.scan_input inv.symptom (scan_ids inv)) (Except.error x) ∈ tr ∨
      (∃ name ∈ chosen_agents inv.agents inv.relevant_agent_names, x = key_error py name) ∨
      ∃ reason source categories, x = .GuardrailBlockedError reason source categories := by
  rcases (path_bind _ _ _ _).mp h with ⟨y, hscan, hy⟩ | ⟨symptom, tr₁, tr₂, rfl, _, h⟩
  · cases hy
    obtain ⟨answer, rest, rfl, hrest⟩ := (path_ask _ _ _ _).mp hscan
    obtain ⟨rfl, hanswer⟩ := (path_done _ _ _).mp hrest
    rw [hanswer]
    exact .inl List.mem_cons_self
  obtain ⟨id, rest, rfl, hnamed⟩ := (path_ask _ _ _ _).mp h
  rw [Prog.pure_eq, Prog.bind_ok] at hnamed
  right
  rcases (path_bind _ _ _ _).mp hnamed with ⟨y, hnames, hy⟩ | ⟨specialists, _, _, _, _, hasked⟩
  · cases hy
    exact .inl (unknown_name py inv _ x ((path_done _ _ _).mp hnames).2.symm)
  rcases (path_bind _ _ _ _).mp hasked with ⟨y, hgather, _⟩ | ⟨results, _, _, _, _, hchecked⟩
  · exact absurd hgather (gather_ok _ _ y)
  rcases (path_bind _ _ _ _).mp hchecked with ⟨y, hrefused, hy⟩ | ⟨_, _, _, _, _, hlast⟩
  · cases hy
    exact .inr (refused_block results x ((path_done _ _ _).mp hrefused).2.symm)
  · cases ((path_done _ _ _).mp hlast).2

/-- What the synthesizer is asked about. -/
def prepared (answers : Answers) : Except Exn (List Item × List Item) :=
  collected_evidence py answers >>= build_timeline py

theorem outcome_prepared (answers : Answers) (response : Str) :
    outcome py answers response =
      prepared py answers >>= fun built => fuse py built.1 built.2 response >>= logged := by
  rw [outcome, prepared]
  cases collected_evidence py answers <;> rfl

theorem concluding_prepared (inv : Investigation) (symptom : Str) (answers : Answers) :
    concluding py inv symptom answers = (Prog.ofExcept (prepared py answers) : M _).bind
      (fun built => (synthesize_rca py symptom inv.user_id inv.session_id built.1 built.2).bind
        (fun rca => .ofExcept (logged rca))) := by
  rw [prepared]
  unfold concluding
  cases collected_evidence py answers <;> rfl

omit [Values] in
/-- A composition that ends without a further event. -/
theorem path_bind_ofExcept {α β : Type} (p : M α) (f : α → Except Exn β) (tr : List Ev)
    (r : Except Exn β) :
    Path (p.bind (fun a => .ofExcept (f a))) tr r ↔ ∃ s, Path p tr s ∧ r = s >>= f := by
  rw [path_bind]
  constructor
  · rintro (⟨x, hraised, rfl⟩ | ⟨a, tr₁, tr₂, rfl, hfirst, hrest⟩)
    · exact ⟨.error x, hraised, rfl⟩
    · obtain ⟨rfl, rfl⟩ := (path_done _ _ _).mp hrest
      exact ⟨.ok a, by rwa [List.append_nil], rfl⟩
  · rintro ⟨s, hpath, rfl⟩
    cases s with
    | error x => exact .inl ⟨x, hpath, rfl⟩
    | ok a =>
      exact .inr ⟨a, tr, [], (List.append_nil tr).symm, hpath, (path_done _ _ _).mpr ⟨rfl, rfl⟩⟩

theorem synthesized_path (inv : Investigation) (symptom : Str) (evidences timeline : List Item)
    (tr : List Ev) (r : Except Exn RCAResult) :
    Path ((synthesize_rca py symptom inv.user_id inv.session_id evidences timeline).bind
        (fun rca => .ofExcept (logged rca))) tr r ↔
      ∃ block answer : Except Exn Str,
        tr = [.asked (Ask.inject_similar_cases symptom) block,
          .asked (Ask.invoke (synthesis_call symptom (block.toOption.getD []) inv.user_id
            inv.session_id evidences timeline)) answer] ∧
        r = answer >>= fuse py evidences timeline >>= logged := by
  simp only [path_bind_ofExcept, synthesize_rca_path]
  constructor
  · rintro ⟨_, ⟨block, answer, rfl, rfl⟩, rfl⟩
    exact ⟨block, answer, rfl, rfl⟩
  · rintro ⟨block, answer, rfl, rfl⟩
    exact ⟨_, ⟨block, answer, rfl, rfl⟩, rfl⟩

theorem concluding_outcome (inv : Investigation) (symptom : Str) (answers : Answers)
    (response : Str) (tr : List Ev) (r : Except Exn RCAResult)
    (h : Path (concluding py inv symptom answers) tr r) (hr : Replied tr response) :
    r = outcome py answers response := by
  rw [concluding_prepared] at h
  rw [outcome_prepared]
  cases hprepared : prepared py answers with
  | error x =>
    rw [hprepared] at h
    exact ((path_done _ _ _).mp h).2
  | ok built =>
    rw [hprepared] at h
    obtain ⟨block, answer, rfl, rfl⟩ := (synthesized_path py inv symptom _ _ tr r).mp h
    have hanswer : answer = .ok response :=
      hr _ answer (List.mem_cons_of_mem _ List.mem_cons_self)
    rw [hanswer]
    rfl

theorem concluding_exists (inv : Investigation) (symptom : Str) (answers : Answers)
    (response : Str) :
    ∃ tr, Path (concluding py inv symptom answers) tr (outcome py answers response) ∧
      Replied tr response := by
  rw [concluding_prepared, outcome_prepared]
  cases prepared py answers with
  | error x => exact ⟨[], .done _, by simp [Replied]⟩
  | ok built =>
    refine ⟨_, (synthesized_path py inv symptom _ _ _ _).mpr ⟨.ok [], .ok response, rfl, rfl⟩, ?_⟩
    intro call answer hmem
    rcases List.mem_cons.mp hmem with heq | hmem
    · cases heq
    · cases List.mem_singleton.mp hmem
      rfl

end Timeline

/-! ### Runs -/

theorem texts_of_lt (a b : Json) (x : Bool) (h : @Values.lt textValues a b = .ok x) :
    is_text a = true ∧ is_text b = true := by
  cases a <;> cases b <;> first | exact ⟨rfl, rfl⟩ | cases h

theorem textValues_ordered : @OrderedValues textValues where
  symm a b _ _ := by
    rintro ⟨x, hx⟩
    obtain ⟨ha, hb⟩ := texts_of_lt a b x hx
    exact (@lawful_texts textValues).symm a b ha hb ⟨x, hx⟩
  asymm a b _ _ h := by
    obtain ⟨ha, hb⟩ := texts_of_lt a b true h
    exact (@lawful_texts textValues).asymm a b ha hb h
  trans a b c _ _ _ h h' := by
    obtain ⟨ha, hb⟩ := texts_of_lt a b true h
    obtain ⟨hc, _⟩ := texts_of_lt c b false h'
    exact (@lawful_texts textValues).trans a b c ha hb hc h h'

/-- The run of the specialists, one of which reports three items. -/
def sampleGathered : List Ev × Except Exn (Str × Answers) :=
  run annotatingEnv [] (gathered asciiRuntime openSettings annotatedInvestigation)

def answers_of (r : Except Exn (Str × Answers)) : Answers :=
  match r with
  | .ok c => c.2
  | .error _ => []

def contents (answers : Answers) : List (Str × Option Str) :=
  answers.map (fun a => (a.1, a.2.toOption.map ConversationMessage.content))

set_option maxRecDepth 100000 in
theorem sampleGathered_ok : ∃ symptom answers,
    Path (gathered asciiRuntime openSettings annotatedInvestigation) sampleGathered.1
      (.ok (symptom, answers)) ∧ contents answers = [("aws".toList, some annotatedAnswer)] := by
  have hcontents : contents (answers_of sampleGathered.2) =
      [("aws".toList, some annotatedAnswer)] := by decide +kernel
  cases hrun : sampleGathered.2 with
  | error x =>
    rw [hrun] at hcontents
    cases hcontents
  | ok c =>
    rw [hrun] at hcontents
    exact ⟨c.1, c.2, path_of_run hrun, hcontents⟩

theorem one_answer (answers : Answers) (name text : Str)
    (h : contents answers = [(name, some text)]) :
    ∃ message, answers = [(name, .ok message)] ∧ message.content = text := by
  obtain ⟨answer, rfl, hanswer⟩ := List.map_eq_singleton_iff.mp h
  obtain ⟨name', r⟩ := answer
  rw [Prod.mk.injEq] at hanswer
  obtain ⟨rfl, hcontent⟩ := hanswer
  cases r with
  | error x => cases hcontent
  | ok message => exact ⟨message, rfl, Option.some.inj hcontent⟩

/-- What is said of the hypothesis, and whether nothing contradicts it. -/
def hypothesis_of (response : Str) : Option (Option Bool × Bool) :=
  (answered_object asciiRuntime response).map (fun pairs =>
    ((Json.get pairs "hypothesis".toList).map is_text,
      (Json.get pairs "contradicting_evidence_indices".toList).isNone))

def deployAnswer : Str := "\x7b\"hypothesis\": \"the deploy\"\x7d".toList

def nullAnswer : Str := "\x7b\"hypothesis\": null\x7d".toList

theorem sample_within_digits : WithinDigits asciiRuntime annotatedAnswer := by
  rw [← parse_evidence_ok_iff asciiRuntime annotatedAnswer "aws".toList]
  have hok : (parse_evidence asciiRuntime annotatedAnswer "aws".toList).toOption.isSome = true := by
    decide +kernel
  cases hparse : parse_evidence asciiRuntime annotatedAnswer "aws".toList with
  | error x =>
    rw [hparse] at hok
    cases hok
  | ok items => exact ⟨items, rfl⟩

theorem untimed_well_typed [Values] (evidences : List Item)
    (h : ∀ e ∈ evidences, timed e = false ∧ hashable e.signal_type = true) :
    WellTyped evidences := by
  have hnone : evidences.filter timed = [] := by
    rw [List.filter_eq_nil_iff]
    intro e he
    rw [(h e he).1]
    exact Bool.false_ne_true
  constructor
  · rw [hnone]
    exact List.Pairwise.nil
  · intro e he htimed
    rw [(h e he).1] at htimed
    cases htimed
  · exact fun e he => (h e he).2

theorem deployAnswer_concludes [Values] (evidences : List Item) (pairs : List (Str × Json))
    (hpairs : answered_object asciiRuntime deployAnswer = some pairs) :
    Concludes evidences pairs := by
  have hhypothesis : hypothesis_of deployAnswer = some (some true, true) := by decide +kernel
  rw [hypothesis_of, hpairs] at hhypothesis
  simp only [Option.map_some, Option.some.injEq, Prod.mk.injEq, Option.isNone_iff_eq_none,
    Option.map_eq_some_iff] at hhypothesis
  obtain ⟨⟨j, hj, htext⟩, hnone⟩ := hhypothesis
  constructor
  · intro j' hj'
    rw [hj, Option.some.injEq] at hj'
    rwa [← hj']
  · intro j' hj'
    rw [hnone] at hj'
    cases hj'

/-- Three items without a time, and a hypothesis. -/
theorem sample_survivable (answers : Answers)
    (h : contents answers = [("aws".toList, some annotatedAnswer)]) :
    @Survivable textValues asciiRuntime answers deployAnswer := by
  obtain ⟨message, rfl, hcontent⟩ := one_answer answers _ _ h
  have hitems : reported asciiRuntime [("aws".toList, .ok message)] =
      (parse_evidence asciiRuntime annotatedAnswer "aws".toList).toOption.getD [] := by
    rw [← hcontent]
    exact List.append_nil _
  have huntimed : ∀ e ∈ reported asciiRuntime [("aws".toList, .ok message)],
      timed e = false ∧ hashable e.signal_type = true := by
    rw [hitems]
    decide +kernel
  refine @Survivable.mk textValues asciiRuntime _ _ ?_ (@untimed_well_typed textValues _ huntimed)
    (fun pairs hpairs => @deployAnswer_concludes textValues _ pairs hpairs)
  intro name answer hmem
  cases List.mem_singleton.mp hmem
  rw [hcontent]
  exact sample_within_digits

end AigentSquad.SurvivedAnswers
