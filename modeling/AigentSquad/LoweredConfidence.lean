import AigentSquad.IndependentSignals
import AigentSquad.RunInvestigation

/-!
# What lowers confidence

A contradiction, in the evidence or among the indices of the synthesizer, never
raises a level, and the order of the evidence does not matter. The result of an
investigation stays below both scores it is made from.
-/

set_option autoImplicit false

namespace AigentSquad.LoweredConfidence
open AigentSquad.PyText AigentSquad.PyJson AigentSquad.Interaction AigentSquad.Investigation
open AigentSquad.Confidence AigentSquad.IndependentSignals AigentSquad.EvidenceExchange
open AigentSquad.Effects AigentSquad.GenericAgent AigentSquad.RunInvestigation

/-! ### Marked items -/

section Marked
variable {V : Type}

/-- The item as an unexplained contradiction. -/
def contradicting (e : Evidence V) : Evidence V :=
  { e with contradicts_hypothesis := true, contradiction_explained := false }

theorem contradicting_blocks [Stamp V] (evidences : List (Evidence V)) (e : Evidence V)
    (h : contradicting e ∈ evidences) : score_confidence evidences = (.LOW, .INSUFFICIENT) := by
  have hcount : 0 < evidences.countP unexplained := List.countP_pos_iff.mpr ⟨_, h, rfl⟩
  rw [score_eq, blocked, decide_eq_true hcount, Bool.or_true, if_pos rfl]

theorem contradicting_lowers [Stamp V] (before after : List (Evidence V)) (e : Evidence V) :
    MODEL_RANK (score_confidence (before ++ contradicting e :: after)).1 ≤
      MODEL_RANK (score_confidence (before ++ e :: after)).1 := by
  rw [contradicting_blocks (before ++ contradicting e :: after) e (by simp)]
  exact Nat.zero_le _

end Marked

/-! ### The order of the evidence -/

theorem foldl_least_mem (ts : List Str) (best : Str) :
    ts.foldl least best = best ∨ ts.foldl least best ∈ ts := by
  induction ts generalizing best with
  | nil => exact .inl rfl
  | cons t ts ih =>
    rw [List.foldl_cons]
    rcases ih (least best t) with h | h
    · rw [h, least]
      split
      · exact .inr List.mem_cons_self
      · exact .inl rfl
    · exact .inr (List.mem_cons_of_mem t h)

/-- The first of the smallest texts is the smallest text. -/
theorem earliest_iff (ts : List Str) (t : Str) :
    earliest ts = some t ↔ t ∈ ts ∧ ∀ s ∈ ts, ¬ s < t := by
  cases ts with
  | nil => simp [earliest]
  | cons x xs =>
    have hmem : xs.foldl least x ∈ x :: xs := by
      rcases foldl_least_mem xs x with h | h
      · rw [h]
        exact List.mem_cons_self
      · exact List.mem_cons_of_mem x h
    have hleast : ∀ s ∈ x :: xs, ¬ s < xs.foldl least x := by
      intro s hs
      rcases List.mem_cons.mp hs with rfl | hs
      · exact foldl_least_le xs s s (.inr (List.lt_irrefl s))
      · exact foldl_least_le xs x s (.inl hs)
    have hvalue : earliest (x :: xs) = some (xs.foldl least x) := rfl
    rw [hvalue, Option.some.injEq]
    constructor
    · rintro rfl
      exact ⟨hmem, hleast⟩
    · rintro ⟨ht, hts⟩
      exact List.le_antisymm (hleast t ht) (hts _ hmem)

theorem earliest_eq_none_iff {V : Type} [Stamp V] (ts : List V) : earliest ts = none ↔ ts = [] := by
  cases ts with
  | nil => simp [earliest]
  | cons x xs => simp [earliest]

theorem earliest_perm (ts ts' : List Str) (h : ts.Perm ts') : earliest ts' = earliest ts := by
  cases hts : earliest ts with
  | none =>
    rw [earliest_eq_none_iff] at hts ⊢
    rw [hts] at h
    exact h.nil_eq.symm
  | some t =>
    rw [earliest_iff] at hts ⊢
    exact ⟨h.mem_iff.mp hts.1, fun s hs => hts.2 s (h.mem_iff.mpr hs)⟩

section Order
variable {evidences evidences' : List (Evidence Str)} (h : evidences.Perm evidences')
include h

theorem earliest_ts_perm (layer : String) :
    earliest_ts layer evidences' = earliest_ts layer evidences :=
  earliest_perm _ _ (((h.filter _).map _).filter _)

theorem validate_temporal_order_perm :
    validate_temporal_order evidences' = validate_temporal_order evidences := by
  simp only [validate_temporal_order, earliest_ts_perm h]

theorem blocked_perm : blocked evidences' = blocked evidences := by
  rw [blocked, blocked, validate_temporal_order_perm h, h.countP_eq]

theorem has_layer_perm (layer : String) : has_layer layer evidences' = has_layer layer evidences :=
  (h.any_eq).symm

theorem score_confidence_perm : score_confidence evidences' = score_confidence evidences := by
  rw [score_eq, score_eq, blocked_perm h, rated, rated, has_layer_perm h, has_layer_perm h,
    has_layer_perm h, count_independent_perm evidences evidences' h, mechanism_count,
    mechanism_count, h.countP_eq]

end Order

/-! ### The result of an investigation -/

section Result
variable [Values] (py : Runtime)

omit [Values] in
theorem level_rank_ceiling (level : Level) (confidence : Confidence) :
    LEVEL_RANK (ceiling level confidence) = min (MODEL_RANK level) (LEVEL_RANK confidence) := by
  cases level <;> cases confidence <;> rfl

/-- Both questions of the synthesis and their answers. -/
theorem synthesize_rca_path (symptom user_id session_id : Str) (evidences timeline : List Item)
    (tr : List Ev) (r : Except Exn RCAResult) :
    Path (synthesize_rca py symptom user_id session_id evidences timeline) tr r ↔
      ∃ block answer : Except Exn Str,
        tr = [.asked (Ask.inject_similar_cases symptom) block,
          .asked (Ask.invoke (synthesis_call symptom (block.toOption.getD []) user_id session_id
            evidences timeline)) answer] ∧
        r = answer >>= fuse py evidences timeline := by
  have hasks : synthesize_rca py symptom user_id session_id evidences timeline =
      Prog.ask (Ask.inject_similar_cases symptom) (fun block : Except Exn Str =>
        Prog.ask (Ask.invoke (synthesis_call symptom (block.toOption.getD []) user_id session_id
          evidences timeline)) (fun answer : Except Exn Str =>
            (Prog.done answer).bind (fun response =>
              Prog.ofExcept (fuse py evidences timeline response)))) := rfl
  have hends : ∀ answer : Except Exn Str, ((Prog.done answer).bind (fun response =>
      Prog.ofExcept (fuse py evidences timeline response)) : M RCAResult) =
        .done (answer >>= fuse py evidences timeline) := by
    intro answer
    cases answer <;> rfl
  rw [hasks, path_ask]
  constructor
  · rintro ⟨block, rest, rfl, h⟩
    obtain ⟨answer, rest, rfl, hrest⟩ := (path_ask _ _ _ _).mp h
    rw [hends] at hrest
    obtain ⟨rfl, hresult⟩ := (path_done _ _ _).mp hrest
    exact ⟨block, answer, rfl, hresult⟩
  · rintro ⟨block, answer, rfl, h⟩
    refine ⟨block, _, rfl, (path_ask _ _ _ _).mpr ⟨answer, [], rfl, ?_⟩⟩
    rw [hends]
    exact (path_done _ _ _).mpr ⟨rfl, h⟩

/-- What the synthesizer answered in a run. -/
def Answered (tr : List Ev) (response : Str) : Prop :=
  ∃ call, .asked (Ask.invoke call) (Except.ok response) ∈ tr

theorem synthesized (symptom user_id session_id : Str) (evidences timeline : List Item)
    (tr : List Ev) (rca : RCAResult) (response : Str)
    (h : Path (synthesize_rca py symptom user_id session_id evidences timeline) tr (.ok rca))
    (hr : Answered tr response) : fuse py evidences timeline response = .ok rca := by
  obtain ⟨block, answer, rfl, hfuse⟩ :=
    (synthesize_rca_path py symptom user_id session_id evidences timeline tr (.ok rca)).mp h
  obtain ⟨call, hr⟩ := hr
  simp only [List.mem_cons, List.not_mem_nil, or_false, Event.asked.injEq, reduceCtorEq,
    false_and, false_or] at hr
  obtain ⟨hcall, hanswer⟩ := hr
  cases hcall
  cases hanswer
  exact hfuse.symm

/-- The indices the answer lists, none where it cannot be read. -/
def listed_indices (response : Str) : List Json :=
  match parse_synthesis py response with
  | .ok synthesis => (iterated synthesis.contradicting_indices).getD []
  | .error _ => []

theorem fuse_ok (evidences timeline : List Item) (response : Str) (rca : RCAResult)
    (h : fuse py evidences timeline response = .ok rca) :
    ∃ items confidence, (listed_indices py response).mapM (at_index evidences) = .ok items ∧
      correlate evidences (items.filterMap id) = .ok confidence ∧
      rca.contradicting = items.filterMap id ∧
      rca.confidence_level = (score_confidence evidences).1 ∧
      rca.confidence = ceiling rca.confidence_level confidence := by
  obtain ⟨synthesis, hsynthesis, h⟩ := bind_eq_ok h
  obtain ⟨found, hfound, h⟩ := bind_eq_ok h
  obtain ⟨confidence, hconfidence, h⟩ := bind_eq_ok h
  cases h
  unfold contradicting_items at hfound
  split at hfound
  · cases hfound
  · next indices hindices =>
    obtain ⟨items, hitems, hfound⟩ := bind_eq_ok hfound
    cases hfound
    refine ⟨items, confidence, ?_, hconfidence, rfl, rfl, rfl⟩
    rw [listed_indices, hsynthesis]
    dsimp only
    rw [hindices]
    exact hitems

theorem mem_indexed_iff (evidences : List Item) (indices : List Json) (items : List (Option Item))
    (h : indices.mapM (at_index evidences) = .ok items) (e : Item) :
    e ∈ items.filterMap id ↔ ∃ i ∈ indices, at_index evidences i = .ok (some e) := by
  induction indices generalizing items with
  | nil =>
    cases h
    simp
  | cons i indices ih =>
    rw [List.mapM_cons] at h
    obtain ⟨item, hitem, h⟩ := bind_eq_ok h
    obtain ⟨rest, hrest, h⟩ := bind_eq_ok h
    cases h
    have hrest := ih rest hrest
    cases item with
    | none =>
      rw [List.filterMap_cons_none rfl, hrest]
      simp [hitem]
    | some f =>
      have hcons : (some f :: rest).filterMap id = f :: rest.filterMap id := rfl
      rw [hcons, List.mem_cons, hrest]
      simp [hitem, @eq_comm _ f e]

theorem correlate_le (evidences found found' : List Item) (confidence confidence' : Confidence)
    (h : correlate evidences found = .ok confidence)
    (h' : correlate evidences found' = .ok confidence') (hfound : found ⊆ found') :
    LEVEL_RANK confidence' ≤ LEVEL_RANK confidence := by
  unfold correlate at h h'
  split at h
  · next hhashable =>
    rw [if_pos hhashable] at h'
    have hempty : found'.isEmpty = true → found.isEmpty = true := by
      intro hnil
      rw [List.isEmpty_iff] at hnil ⊢
      exact List.subset_nil.mp (hnil ▸ hfound)
    simp only [Except.ok.injEq] at h h'
    subst h h'
    cases hn' : found'.isEmpty with
    | true =>
      rw [hempty hn']
    | false =>
      cases found.isEmpty with
      | false => exact Nat.le_refl _
      | true =>
        simp only [Bool.not_false, Bool.not_true, Bool.and_true, Bool.and_false]
        split <;> split <;> simp_all [LEVEL_RANK]
  · cases h

/-- The confidence is capped by both scores. -/
theorem fused_capped (evidences timeline : List Item) (response : Str) (rca : RCAResult)
    (h : fuse py evidences timeline response = .ok rca) :
    rca.confidence_level = (score_confidence evidences).1 ∧
      LEVEL_RANK rca.confidence ≤ MODEL_RANK rca.confidence_level ∧
      ∃ confidence, correlate evidences rca.contradicting = .ok confidence ∧
        LEVEL_RANK rca.confidence ≤ LEVEL_RANK confidence := by
  obtain ⟨items, confidence, _, hcorrelate, hcontradicting, hlevel, hconfidence⟩ :=
    fuse_ok py evidences timeline response rca h
  rw [hcontradicting, hconfidence, level_rank_ceiling]
  exact ⟨hlevel, Nat.min_le_left _ _, confidence, hcorrelate, Nat.min_le_right _ _⟩

/-- An answer that lists more indices does not end in more confidence. -/
theorem fused_indices (evidences timeline : List Item) (response response' : Str)
    (rca rca' : RCAResult) (h : fuse py evidences timeline response = .ok rca)
    (h' : fuse py evidences timeline response' = .ok rca')
    (hlisted : listed_indices py response ⊆ listed_indices py response') :
    LEVEL_RANK rca'.confidence ≤ LEVEL_RANK rca.confidence := by
  obtain ⟨items, confidence, hitems, hcorrelate, _, hlevel, hconfidence⟩ :=
    fuse_ok py evidences timeline response rca h
  obtain ⟨items', confidence', hitems', hcorrelate', _, hlevel', hconfidence'⟩ :=
    fuse_ok py evidences timeline response' rca' h'
  have hfound : items.filterMap id ⊆ items'.filterMap id := by
    intro e he
    obtain ⟨i, hi, hat⟩ := (mem_indexed_iff evidences _ items hitems e).mp he
    exact (mem_indexed_iff evidences _ items' hitems' e).mpr ⟨i, hlisted hi, hat⟩
  have hle := correlate_le evidences _ _ confidence confidence' hcorrelate hcorrelate' hfound
  rw [hconfidence, hconfidence', level_rank_ceiling, level_rank_ceiling, hlevel, hlevel']
  omega

end Result

/-- Marked items, the order of the evidence and the answer of the synthesizer. -/
theorem confidence_only_lowered [Values] (py : Runtime) :
    (∀ (V : Type) (_ : Stamp V) (before after : List (Evidence V)) (e : Evidence V),
      MODEL_RANK (score_confidence (before ++ contradicting e :: after)).1 ≤
        MODEL_RANK (score_confidence (before ++ e :: after)).1) ∧
    (∀ evidences evidences' : List (Evidence Str), evidences.Perm evidences' →
      score_confidence evidences' = score_confidence evidences) ∧
    ∀ (symptom user_id session_id : Str) (evidences timeline : List Item) (tr : List Ev)
      (rca : RCAResult),
      Path (synthesize_rca py symptom user_id session_id evidences timeline) tr (.ok rca) →
        (rca.confidence_level = (score_confidence evidences).1 ∧
          LEVEL_RANK rca.confidence ≤ MODEL_RANK rca.confidence_level ∧
          ∃ confidence, correlate evidences rca.contradicting = .ok confidence ∧
            LEVEL_RANK rca.confidence ≤ LEVEL_RANK confidence) ∧
        ∀ (tr' : List Ev) (rca' : RCAResult) (response response' : Str),
          Path (synthesize_rca py symptom user_id session_id evidences timeline) tr' (.ok rca') →
          Answered tr response → Answered tr' response' →
          listed_indices py response ⊆ listed_indices py response' →
            LEVEL_RANK rca'.confidence ≤ LEVEL_RANK rca.confidence := by
  refine ⟨fun V _ before after e => contradicting_lowers before after e,
    fun evidences evidences' h => score_confidence_perm h, ?_⟩
  intro symptom user_id session_id evidences timeline tr rca hrun
  constructor
  · obtain ⟨block, answer, _, hfuse⟩ :=
      (synthesize_rca_path py symptom user_id session_id evidences timeline tr (.ok rca)).mp hrun
    obtain ⟨response, _, hfuse⟩ := bind_eq_ok hfuse.symm
    exact fused_capped py evidences timeline response rca hfuse
  · intro tr' rca' response response' hrun' hanswer hanswer' hlisted
    exact fused_indices py evidences timeline response response' rca rca'
      (synthesized py symptom user_id session_id evidences timeline tr rca response hrun hanswer)
      (synthesized py symptom user_id session_id evidences timeline tr' rca' response' hrun'
        hanswer') hlisted

end AigentSquad.LoweredConfidence
