import AigentSquad.Investigation

/-!
# What the confidence score depends on

The score is a decision on a few counts, once nothing blocks it. The published
decision list differs from it in one case; further evidence of what is already
known moves it in two.
-/

set_option autoImplicit false

namespace AigentSquad.Confidence
open AigentSquad.PyText AigentSquad.Investigation

def observed (id layer subtype domain : String) : Evidence Str where
  source_agent := "kubernetes".toList
  signal_type := "event".toList
  timestamp := []
  strength := "forte".toList
  summary := subtype.toList
  signal_subtype := subtype.toList
  causal_layer := layer.toList
  fault_domain := domain.toList
  id := id.toList

def deployed : Evidence Str := observed "e1" "change" "deploy" "app:checkout"

def outOfMemory : Evidence Str := observed "e2" "mechanism" "OOMKill" "infra:node-1"

def errorRate : Evidence Str := observed "e3" "impact" "error_rate_spike" "app:cart"

def noTraffic : Evidence Str := observed "e4" "elimination" "traffic_normal" "net:edge"

section Decision
variable {V : Type} [Stamp V]

def blocked (evidences : List (Evidence V)) : Bool :=
  !(validate_temporal_order evidences).isEmpty || decide (0 < evidences.countP unexplained)

def layers (change impact : Bool) (mechanisms : ℕ) : ℕ :=
  change.toNat + (decide (1 ≤ mechanisms)).toNat + impact.toNat

/-- The decision of `score_confidence` once nothing blocks. -/
def rate (change impact temporal : Bool) (mechanisms independent : ℕ) : Level × Track :=
  if change && 1 ≤ mechanisms && impact then
    if 3 ≤ independent then (.HIGH, .A) else (.MEDIUM, .A)
  else if !change && 2 ≤ mechanisms && impact then (.HIGH, .B)
  else if change && impact && temporal then (.HIGH, .A)
  else if 2 ≤ layers change impact mechanisms then (.MEDIUM, if change then .A else .B)
  else (.LOW, .INSUFFICIENT)

def rated (evidences : List (Evidence V)) : Level × Track :=
  rate (has_layer "change" evidences) (has_layer "impact" evidences)
    (has_layer "temporal" evidences) (mechanism_count evidences) (count_independent evidences)

omit [Stamp V] in
theorem has_mechanism (evidences : List (Evidence V)) :
    has_layer "mechanism" evidences = decide (1 ≤ mechanism_count evidences) := by
  rw [has_layer, mechanism_count, Bool.eq_iff_iff, List.any_eq_true, decide_eq_true_eq]
  exact List.countP_pos_iff.symm

omit [Stamp V] in
theorem present_ordered_length (evidences : List (Evidence V)) :
    (["change", "mechanism", "impact"].filter (has_layer · evidences)).length =
      layers (has_layer "change" evidences) (has_layer "impact" evidences)
        (mechanism_count evidences) := by
  rw [layers, ← has_mechanism]
  cases hc : has_layer "change" evidences <;> cases hm : has_layer "mechanism" evidences <;>
    cases hi : has_layer "impact" evidences <;> simp [List.filter, hc, hm, hi]

theorem score_eq (evidences : List (Evidence V)) :
    score_confidence evidences =
      if blocked evidences then (.LOW, .INSUFFICIENT) else rated evidences := by
  by_cases hempty : evidences.isEmpty = true
  · rw [score_confidence, if_pos hempty, List.isEmpty_iff.mp hempty]
    split <;> rfl
  · rw [score_confidence, if_neg hempty]
    simp only [present_ordered_length]
    rw [blocked]
    cases hv : (validate_temporal_order evidences).isEmpty with
    | false => simp
    | true =>
      by_cases hu : 0 < evidences.countP unexplained
      · simp [hu]
      · simp only [hu, Bool.not_true, Bool.false_eq_true, if_false, decide_false, Bool.or_false]
        rfl

/-- The decision list of section 5, in its order. -/
def section5 (evidences : List (Evidence V)) : Level :=
  let change := has_layer "change" evidences
  let impact := has_layer "impact" evidences
  let temporal := has_layer "temporal" evidences
  let mechanisms := mechanism_count evidences
  if 0 < evidences.countP unexplained then .LOW
  else if !(validate_temporal_order evidences).isEmpty then .LOW
  else if !change && 2 ≤ mechanisms && impact then .HIGH
  else if !change then .LOW
  else if 1 ≤ mechanisms && impact then if 3 ≤ count_independent evidences then .HIGH else .MEDIUM
  else if impact && temporal then .HIGH
  else if 2 ≤ layers change impact mechanisms then .MEDIUM
  else .LOW

/-- One MECHANISM and IMPACT without a CHANGE, and nothing that blocks. -/
structure LoneMechanism (evidences : List (Evidence V)) : Prop where
  unblocked : blocked evidences = false
  change : has_layer "change" evidences = false
  mechanism : mechanism_count evidences = 1
  impact : has_layer "impact" evidences = true

/-- The decision list once nothing blocks. -/
def listed (change impact temporal : Bool) (mechanisms independent : ℕ) : Level :=
  if !change && 2 ≤ mechanisms && impact then .HIGH
  else if !change then .LOW
  else if 1 ≤ mechanisms && impact then if 3 ≤ independent then .HIGH else .MEDIUM
  else if impact && temporal then .HIGH
  else if 2 ≤ layers change impact mechanisms then .MEDIUM
  else .LOW

theorem section5_eq (evidences : List (Evidence V)) :
    section5 evidences = if blocked evidences then .LOW else
      listed (has_layer "change" evidences) (has_layer "impact" evidences)
        (has_layer "temporal" evidences) (mechanism_count evidences)
        (count_independent evidences) := by
  rw [section5, blocked]
  by_cases hu : 0 < evidences.countP unexplained
  · simp [hu]
  · cases hv : (validate_temporal_order evidences).isEmpty with
    | false => simp [hu]
    | true =>
      simp only [hu, Bool.not_true, Bool.false_eq_true, if_false, decide_false, Bool.or_false]
      rfl

theorem rate_listed_iff (change impact temporal : Bool) (mechanisms independent : ℕ) :
    (rate change impact temporal mechanisms independent).1 =
      listed change impact temporal mechanisms independent ↔
        ¬ (change = false ∧ mechanisms = 1 ∧ impact = true) := by
  rcases mechanisms with _ | _ | mechanisms
  · cases change <;> cases impact <;> cases temporal <;> simp [rate, listed, layers]
  · cases change <;> cases impact <;> cases temporal <;> simp [rate, listed, layers]
    all_goals split <;> rfl
  · cases change <;> cases impact <;> cases temporal <;> simp [rate, listed, layers]
    all_goals split <;> rfl

theorem score_section5_iff (evidences : List (Evidence V)) :
    (score_confidence evidences).1 = section5 evidences ↔ ¬ LoneMechanism evidences := by
  rw [score_eq, section5_eq]
  cases hb : blocked evidences with
  | true =>
    simp only [if_true, true_iff]
    intro h
    rw [h.unblocked] at hb
    cases hb
  | false =>
    simp only [Bool.false_eq_true, if_false]
    rw [rated, rate_listed_iff]
    refine not_congr ⟨fun h => ⟨hb, h.1, h.2.1, h.2.2⟩, fun h => ⟨h.change, h.mechanism, h.impact⟩⟩

/-- An OOMKill and an error rate, with no change, score MEDIUM; the list says LOW. -/
theorem lone_mechanism_scores_medium :
    ¬ ∀ evidences : List (Evidence Str), (score_confidence evidences).1 = section5 evidences := by
  intro h
  exact absurd (h [outOfMemory, errorRate]) (by decide +kernel)

/-! ### Elimination -/

omit [Stamp V] in
theorem eliminates_only (e : Evidence V) (he : in_layer "elimination" e = true) (layer : String)
    (h : layer ≠ "elimination") : in_layer layer e = false := by
  rw [in_layer, beq_iff_eq] at he
  rw [in_layer, he, beq_eq_false_iff_ne, ne_eq, String.toList_inj]
  exact fun heq => h heq.symm

omit [Stamp V] in
theorem has_layer_insert (layer : String) (before after : List (Evidence V)) (e : Evidence V)
    (h : in_layer layer e = false) :
    has_layer layer (before ++ e :: after) = has_layer layer (before ++ after) := by
  simp [has_layer, h]

omit [Stamp V] in
theorem mechanism_count_insert (before after : List (Evidence V)) (e : Evidence V)
    (h : in_layer "mechanism" e = false) :
    mechanism_count (before ++ e :: after) = mechanism_count (before ++ after) := by
  simp [mechanism_count, List.countP_append, h]

theorem earliest_ts_insert (layer : String) (before after : List (Evidence V)) (e : Evidence V)
    (h : in_layer layer e = false) :
    earliest_ts layer (before ++ e :: after) = earliest_ts layer (before ++ after) := by
  simp [earliest_ts, h]

theorem blocked_insert (before after : List (Evidence V)) (e : Evidence V)
    (hlayer : ∀ layer ∈ ["change", "mechanism", "impact"], in_layer layer e = false)
    (he : unexplained e = false) :
    blocked (before ++ e :: after) = blocked (before ++ after) := by
  have hts : ∀ layer ∈ ["change", "mechanism", "impact"],
      earliest_ts layer (before ++ e :: after) = earliest_ts layer (before ++ after) :=
    fun layer hl => earliest_ts_insert layer before after e (hlayer layer hl)
  have horder : validate_temporal_order (before ++ e :: after) =
      validate_temporal_order (before ++ after) := by
    simp only [validate_temporal_order, hts _ List.mem_cons_self,
      hts "mechanism" (by simp), hts "impact" (by simp)]
  simp [blocked, horder, List.countP_append, he]

/-- An item that adds a group to two, or melts three groups or more into less than three,
where the score turns on their number. -/
structure Counted (evidences : List (Evidence V)) (e : Evidence V) : Prop where
  unblocked : blocked evidences = false
  change : has_layer "change" evidences = true
  mechanism : 1 ≤ mechanism_count evidences
  impact : has_layer "impact" evidences = true
  groups : (groups evidences = 2 ∧ joined_groups evidences e = 0) ∨
    (3 ≤ groups evidences ∧ groups evidences ≤ joined_groups evidences e + 1)

theorem rate_independent_iff (change impact temporal : Bool) (mechanisms n n' : ℕ) :
    rate change impact temporal mechanisms n' = rate change impact temporal mechanisms n ↔
      ¬ (change = true ∧ 1 ≤ mechanisms ∧ impact = true ∧ ¬ (3 ≤ n' ↔ 3 ≤ n)) := by
  by_cases hfull : (change && decide (1 ≤ mechanisms) && impact) = true
  · simp only [rate, hfull, if_true]
    simp only [Bool.and_eq_true, decide_eq_true_eq] at hfull
    by_cases hn : 3 ≤ n <;> by_cases hn' : 3 ≤ n' <;> simp [hn, hn', hfull]
  · simp only [rate, hfull, Bool.false_eq_true, if_false, true_iff]
    simp only [Bool.and_eq_true, decide_eq_true_eq] at hfull
    rintro ⟨hc, hm, hi, _⟩
    exact hfull ⟨⟨hc, hm⟩, hi⟩

/-- Elimination evidence leaves the score alone exactly where it is not `Counted`. -/
theorem elimination_uncounted_iff (before after : List (Evidence V)) (e : Evidence V)
    (he : in_layer "elimination" e = true) (hc : e.contradicts_hypothesis = false) :
    score_confidence (before ++ e :: after) = score_confidence (before ++ after) ↔
      ¬ Counted (before ++ after) e := by
  have hlayer : ∀ layer, layer ≠ "elimination" → in_layer layer e = false :=
    eliminates_only e he
  have hblocked := blocked_insert before after e
    (fun layer hl => hlayer layer (by rintro rfl; simp at hl)) (by simp [unexplained, hc])
  have hgroups := groups_insert before after e
  rw [score_eq, score_eq, hblocked]
  cases hb : blocked (before ++ after) with
  | true =>
    simp only [if_true, true_iff]
    intro h
    rw [h.unblocked] at hb
    cases hb
  | false =>
    simp only [Bool.false_eq_true, if_false]
    rw [rated, rated, has_layer_insert "change" before after e (hlayer _ (by decide)),
      has_layer_insert "impact" before after e (hlayer _ (by decide)),
      has_layer_insert "temporal" before after e (hlayer _ (by decide)),
      mechanism_count_insert before after e (hlayer _ (by decide)), rate_independent_iff,
      count_independent_eq, count_independent_eq]
    refine not_congr ⟨?_, ?_⟩
    · rintro ⟨hc, hm, hi, hn⟩
      exact ⟨hb, hc, hm, hi, by omega⟩
    · intro h
      refine ⟨h.change, h.mechanism, h.impact, ?_⟩
      have := h.groups
      omega

end Decision

/-- Three groups stay three or more when an unrelated elimination joins them. -/
theorem elimination_uncounted_three :
    score_confidence [deployed, outOfMemory, errorRate, noTraffic] =
      score_confidence [deployed, outOfMemory, errorRate] := by
  refine (elimination_uncounted_iff [deployed, outOfMemory, errorRate] [] noTraffic
    (by decide) (by decide)).mpr ?_
  intro h
  have hgroups : groups [deployed, outOfMemory, errorRate] = 3 := by
    rw [← count_independent_eq]
    rfl
  have hjoined : joined_groups [deployed, outOfMemory, errorRate] noTraffic = 0 :=
    (joined_groups_eq_zero_iff _ _).mpr (by decide)
  have := h.groups
  simp only [List.append_nil, hgroups, hjoined] at this
  omega

/-- An OOMKill derived from the deploy leaves two groups; the elimination makes a third,
and MEDIUM becomes HIGH. -/
theorem elimination_raises :
    ¬ ∀ (before after : List (Evidence Str)) (e : Evidence Str),
      in_layer "elimination" e = true → e.contradicts_hypothesis = false →
      score_confidence (before ++ e :: after) = score_confidence (before ++ after) := by
  intro h
  exact absurd (h [deployed, { outOfMemory with derivation_source := some deployed.id }, errorRate]
    [] noTraffic (by decide) (by decide)) (by decide +kernel)

/-! ### Evidence of what is already known -/

/-- A copy of `x`, or an item derived from it in its layer and at its time. -/
def Correlated (x e : Evidence Str) : Prop :=
  e = x ∨ (are_derived x e = true ∧ e.causal_layer = x.causal_layer ∧ e.timestamp = x.timestamp)

theorem Correlated.layer {x e : Evidence Str} (h : Correlated x e) (layer : String) :
    in_layer layer e = in_layer layer x := by
  rcases h with rfl | ⟨_, hlayer, _⟩
  · rfl
  · rw [in_layer, hlayer, in_layer]

theorem Correlated.time {x e : Evidence Str} (h : Correlated x e) : e.timestamp = x.timestamp := by
  rcases h with rfl | ⟨_, _, htime⟩
  · rfl
  · exact htime

/-- The smaller of two, the first on a tie. -/
def least (best t : Str) : Str := if Stamp.before t best then t else best

theorem least_le (best t s : Str) (h : ¬ s < best) : ¬ s < least best t := by
  unfold least
  split
  · next ht => exact fun hs => h (List.lt_trans hs (of_decide_eq_true ht))
  · exact h

theorem foldl_least_le (ts : List Str) (best s : Str) (h : s ∈ ts ∨ ¬ s < best) :
    ¬ s < ts.foldl least best := by
  induction ts generalizing best with
  | nil => exact h.resolve_left (by simp)
  | cons t ts ih =>
    refine ih (least best t) ?_
    rcases h with h | h
    · rcases List.mem_cons.mp h with rfl | h
      · refine .inr ?_
        unfold least
        split
        · exact List.lt_irrefl s
        · next ht => exact fun hs => ht (decide_eq_true hs)
      · exact .inl h
    · exact .inr (least_le best t s h)

theorem earliest_known (ts : List Str) (t : Str) (h : t ∈ ts) :
    earliest (ts ++ [t]) = earliest ts := by
  cases ts with
  | nil => cases h
  | cons x xs =>
    have hbest : ¬ t < xs.foldl least x := by
      rcases List.mem_cons.mp h with rfl | h
      · exact foldl_least_le xs t t (.inr (List.lt_irrefl t))
      · exact foldl_least_le xs x t (.inl h)
    have hkeep : least (xs.foldl least x) t = xs.foldl least x := by
      rw [least, if_neg]
      exact fun hb => hbest (of_decide_eq_true hb)
    show some ((xs ++ [t]).foldl least x) = some (xs.foldl least x)
    rw [List.foldl_append, List.foldl_cons, List.foldl_nil, hkeep]

section Known
variable {evidences : List (Evidence Str)} {x e : Evidence Str} (hx : x ∈ evidences)
  (he : Correlated x e)
include hx he

theorem has_layer_known (layer : String) :
    has_layer layer (evidences ++ [e]) = has_layer layer evidences := by
  rw [has_layer, List.any_append, List.any_cons, List.any_nil, Bool.or_false, he.layer, has_layer]
  cases hl : in_layer layer x with
  | false => rw [Bool.or_false]
  | true =>
    rw [Bool.or_true, eq_comm, List.any_eq_true]
    exact ⟨x, hx, hl⟩

theorem earliest_ts_known (layer : String) :
    earliest_ts layer (evidences ++ [e]) = earliest_ts layer evidences := by
  unfold earliest_ts
  rw [List.filter_append, List.map_append, List.filter_append]
  by_cases hcount : in_layer layer e = true ∧ Stamp.truthy e.timestamp = true
  · have hmem : e.timestamp ∈
        ((evidences.filter (in_layer layer)).map Evidence.timestamp).filter Stamp.truthy := by
      refine List.mem_filter.mpr ⟨List.mem_map.mpr ⟨x, List.mem_filter.mpr ⟨hx, ?_⟩, ?_⟩, hcount.2⟩
      · rw [← he.layer]
        exact hcount.1
      · exact he.time.symm
    have hlast : (([e].filter (in_layer layer)).map Evidence.timestamp).filter Stamp.truthy =
        [e.timestamp] := by
      simp [hcount.1, hcount.2]
    rw [hlast, earliest_known _ _ hmem]
  · have hlast : (([e].filter (in_layer layer)).map Evidence.timestamp).filter Stamp.truthy =
        ([] : List Str) := by
      cases hl : in_layer layer e with
      | false => simp [hl]
      | true => simpa [hl] using hcount
    rw [hlast, List.append_nil]

theorem blocked_known :
    blocked (evidences ++ [e]) = (blocked evidences || unexplained e) := by
  have horder : validate_temporal_order (evidences ++ [e]) = validate_temporal_order evidences := by
    simp only [validate_temporal_order, earliest_ts_known hx he]
  rw [blocked, horder, List.countP_append, blocked]
  cases hu : unexplained e <;> simp [hu]

theorem mechanism_count_known : mechanism_count (evidences ++ [e]) =
    mechanism_count evidences + (in_layer "mechanism" e).toNat ∧
      (in_layer "mechanism" e = true → 1 ≤ mechanism_count evidences) := by
  constructor
  · rw [mechanism_count, List.countP_append, mechanism_count]
    cases h : in_layer "mechanism" e <;> simp [h]
  · intro h
    rw [he.layer] at h
    exact List.countP_pos_iff.mpr ⟨x, hx, h⟩

end Known

/-- What the item raises: a second MECHANISM where there is no CHANGE, or a third group. -/
structure Inflated (evidences : List (Evidence Str)) (e : Evidence Str) : Prop where
  unblocked : blocked evidences = false
  explained : unexplained e = false
  impact : has_layer "impact" evidences = true
  raised : (has_layer "change" evidences = false ∧ mechanism_count evidences = 1 ∧
      in_layer "mechanism" e = true) ∨
    (has_layer "change" evidences = true ∧ 1 ≤ mechanism_count evidences ∧
      groups evidences = 2 ∧ ∀ a ∈ evidences, dependent e a = false)

theorem rate_le_iff (change impact temporal : Bool) (m m' n n' : ℕ) (hm : m ≤ m')
    (hone : m' ≤ m + 1) (hnew : m = 0 → m' = 0) (hn : n' ≤ n + 1) :
    MODEL_RANK (rate change impact temporal m' n').1 ≤
        MODEL_RANK (rate change impact temporal m n).1 ↔
      ¬ (impact = true ∧ ((change = false ∧ m = 1 ∧ m' = 2) ∨
        (change = true ∧ 1 ≤ m ∧ n = 2 ∧ n' = 3))) := by
  have hsame : m = 0 ∧ m' = 0 ∨ m = 1 ∧ m' = 1 ∨ m = 1 ∧ m' = 2 ∨ 2 ≤ m ∧ 2 ≤ m' := by omega
  cases impact with
  | false =>
    have hrate : rate change false temporal m' n' = rate change false temporal m n := by
      have hpos : (decide (1 ≤ m')) = decide (1 ≤ m) := by
        rw [Bool.eq_iff_iff, decide_eq_true_eq, decide_eq_true_eq]
        omega
      simp [rate, layers, hpos]
    simp [hrate]
  | true =>
    cases change with
    | false =>
      rcases hsame with ⟨rfl, rfl⟩ | ⟨rfl, rfl⟩ | ⟨rfl, rfl⟩ | ⟨h, h'⟩
      · simp [rate, layers]
      · simp [rate, layers]
      · simp [rate, layers, MODEL_RANK]
      · have hne : m ≠ 1 := by omega
        simp [rate, h, h', hne]
    | true =>
      by_cases hpos : 1 ≤ m
      · have hpos' : 1 ≤ m' := by omega
        by_cases hc : 3 ≤ n
        · have hne : n ≠ 2 := by omega
          by_cases hc' : 3 ≤ n' <;> simp [rate, hpos, hpos', hc, hc', hne, MODEL_RANK]
        · by_cases hc' : 3 ≤ n'
          · have htwo : n = 2 := by omega
            have hthree : n' = 3 := by omega
            simp [rate, hpos, hpos', htwo, hthree, MODEL_RANK]
          · have hne : n' ≠ 3 := by omega
            simp [rate, hpos, hpos', hc, hc', hne]
      · have hzero : m = 0 := by omega
        have hzero' : m' = 0 := hnew hzero
        simp [rate, hzero, hzero']

/-- Further evidence of what is known raises the level exactly where it is `Inflated`. -/
theorem correlated_raises_iff (evidences : List (Evidence Str)) (x e : Evidence Str)
    (hx : x ∈ evidences) (he : Correlated x e) :
    MODEL_RANK (score_confidence (evidences ++ [e])).1 ≤
        MODEL_RANK (score_confidence evidences).1 ↔ ¬ Inflated evidences e := by
  have hblocked := blocked_known hx he
  obtain ⟨hcount, hnew⟩ := mechanism_count_known hx he
  have hgroups := groups_insert evidences [] e
  rw [List.append_nil] at hgroups
  have hjoined := joined_groups_eq_zero_iff evidences e
  rw [score_eq, score_eq, hblocked]
  cases hb : blocked evidences with
  | true =>
    simp only [Bool.true_or, if_true, Nat.le_refl, true_iff]
    intro h
    rw [h.unblocked] at hb
    cases hb
  | false =>
    cases hu : unexplained e with
    | true =>
      simp only [Bool.or_true, if_true, MODEL_RANK, Nat.zero_le, true_iff]
      intro h
      rw [h.explained] at hu
      cases hu
    | false =>
      simp only [Bool.or_self, Bool.false_eq_true, if_false]
      rw [rated, rated, has_layer_known hx he, has_layer_known hx he, has_layer_known hx he,
        rate_le_iff _ _ _ _ _ _ _ (by omega) (by cases h : in_layer "mechanism" e <;> simp_all)
          (fun h => by cases hl : in_layer "mechanism" e <;> simp_all)
          (by rw [count_independent_eq, count_independent_eq]; omega),
        count_independent_eq, count_independent_eq]
      refine not_congr ⟨?_, ?_⟩
      · rintro ⟨hi, ⟨hc, hm, hm'⟩ | ⟨hc, hm, hn, hn'⟩⟩
        · refine ⟨hb, hu, hi, .inl ⟨hc, hm, ?_⟩⟩
          cases hl : in_layer "mechanism" e with
          | true => rfl
          | false =>
            rw [hcount, hm, hl] at hm'
            cases hm'
        · exact ⟨hb, hu, hi, .inr ⟨hc, hm, hn, hjoined.mp (by omega)⟩⟩
      · intro h
        refine ⟨h.impact, ?_⟩
        rcases h.raised with ⟨hc, hm, hl⟩ | ⟨hc, hm, hn, hall⟩
        · exact .inl ⟨hc, hm, by rw [hcount, hm, hl]; rfl⟩
        · have := hjoined.mpr hall
          exact .inr ⟨hc, hm, hn, by omega⟩

/-- A second copy of the OOMKill falls into the group of the first. -/
theorem correlated_raises_not_copy :
    MODEL_RANK (score_confidence [deployed, outOfMemory, errorRate, outOfMemory]).1 ≤
      MODEL_RANK (score_confidence [deployed, outOfMemory, errorRate]).1 := by
  refine (correlated_raises_iff [deployed, outOfMemory, errorRate] outOfMemory outOfMemory
    (by simp) (.inl rfl)).mpr ?_
  intro h
  rcases h.raised with ⟨hchange, _⟩ | ⟨_, _, _, hall⟩
  · exact absurd hchange (by decide)
  · exact absurd (hall outOfMemory (by simp)) (by decide)

/-- Without a change, the OOMKill reported twice turns MEDIUM into HIGH. -/
theorem copy_raises :
    ¬ ∀ (evidences : List (Evidence Str)) (x e : Evidence Str), x ∈ evidences → Correlated x e →
      MODEL_RANK (score_confidence (evidences ++ [e])).1 ≤
        MODEL_RANK (score_confidence evidences).1 := by
  intro h
  exact absurd (h [outOfMemory, errorRate] outOfMemory outOfMemory (by simp) (.inl rfl))
    (by decide +kernel)

end AigentSquad.Confidence
