import AigentSquad.DisjointSets
import AigentSquad.PyText

/-!
# Evidence and confidence

The evidence of an investigation, the independence count and the confidence
score. Evidence read from an agent's answer may carry any JSON value where a
text is expected, so the four fields that are read are generic.
-/

set_option autoImplicit false

namespace AigentSquad.Investigation
open AigentSquad.PyText AigentSquad.Components AigentSquad.DisjointSets

/-- What `score_confidence` does with a timestamp. -/
class Stamp (V : Type) where
  truthy : V → Bool
  before : V → V → Bool
  str : V → Str

instance : Stamp Str where
  truthy s := !s.isEmpty
  before s t := decide (s < t)
  str s := s

structure Evidence (V : Type) where
  source_agent : Str
  signal_type : V
  timestamp : V
  strength : V
  summary : V
  is_causal_candidate : Bool := false
  signal_id : Str := []
  signal_subtype : Str := []
  causal_layer : Str := []
  fault_domain : Str := []
  timestamp_precision : Str := []
  raw_query : Str := []
  derivation_source : Option Str := none
  is_recurring : Bool := false
  first_occurrence : Option Str := none
  contradicts_hypothesis : Bool := false
  contradiction_explained : Bool := false
  trace_id : Option Str := none
  id : Str := []

def DERIVATION_PAIRS : List (Str × Str) :=
  [("OOMKill".toList, "pod_restart".toList),
    ("error_rate_spike".toList, "error_log".toList),
    ("error_rate_spike".toList, "error_trace".toList),
    ("error_log".toList, "error_trace".toList),
    ("latency_spike".toList, "slow_trace".toList),
    ("memory_growth".toList, "OOMKill".toList),
    ("node_NotReady".toList, "pod_eviction".toList),
    ("node_MemoryPressure".toList, "OOMKill".toList),
    ("cpu_throttle".toList, "latency_spike".toList)]

def is_set : Option Str → Bool
  | some s => !s.isEmpty
  | none => false

variable {V : Type}

def derivation_link (a b : Evidence V) : Bool :=
  is_set b.derivation_source && b.derivation_source == some a.id

def shared_trace (a b : Evidence V) : Bool :=
  is_set a.trace_id && is_set b.trace_id && a.trace_id == b.trace_id

def derivation_pair (a b : Evidence V) : Bool :=
  (DERIVATION_PAIRS.contains (a.signal_subtype, b.signal_subtype) ||
    DERIVATION_PAIRS.contains (b.signal_subtype, a.signal_subtype)) &&
  (a.fault_domain.isEmpty || b.fault_domain.isEmpty || a.fault_domain == b.fault_domain)

def are_derived (a b : Evidence V) : Bool :=
  derivation_link a b || derivation_link b a || shared_trace a b || derivation_pair a b

def same_layer_and_domain (a b : Evidence V) : Bool :=
  !a.causal_layer.isEmpty && !b.causal_layer.isEmpty && a.causal_layer == b.causal_layer &&
    !a.fault_domain.isEmpty && !b.fault_domain.isEmpty && a.fault_domain == b.fault_domain

/-- The pairs `count_independent` unites. -/
def dependent (a b : Evidence V) : Bool := are_derived a b || same_layer_and_domain a b

def dependent_at (evidences : List (Evidence V)) (i j : ℕ) : Bool :=
  match evidences[i]?, evidences[j]? with
  | some a, some b => dependent a b
  | _, _ => false

def dependent_pairs (evidences : List (Evidence V)) : List (ℕ × ℕ) :=
  let n := evidences.length
  (List.range n).flatMap (fun i =>
    ((List.range' (i + 1) (n - (i + 1))).filter (dependent_at evidences i)).map (fun j => (i, j)))

/-- No climb takes more steps than there were unions, which bounds the fuel. -/
def count_independent (evidences : List (Evidence V)) : ℕ :=
  if evidences.isEmpty then 0
  else
    let links := dependent_pairs evidences
    let fuel := links.length + 1
    (roots fuel (unions fuel id links) (List.range evidences.length)).dedup.length

section Score
variable [Stamp V]

/-- `min`, the first of the smallest -/
def earliest : List V → Option V
  | [] => none
  | t :: ts => some (ts.foldl (fun best t => if Stamp.before t best then t else best) t)

def in_layer (layer : String) (e : Evidence V) : Bool := e.causal_layer == layer.toList

def earliest_ts (layer : String) (evidences : List (Evidence V)) : Option V :=
  earliest (((evidences.filter (in_layer layer)).map Evidence.timestamp).filter Stamp.truthy)

def violation (cause effect : String) (cause_ts effect_ts : Option V) : List Str :=
  match cause_ts, effect_ts with
  | some c, some e =>
    if Stamp.before e c then
      ["Temporal violation: earliest ".toList ++ cause.toList ++ " (".toList ++ Stamp.str c ++
        ") is AFTER earliest ".toList ++ effect.toList ++ " (".toList ++ Stamp.str e ++ ")".toList]
    else []
  | _, _ => []

def validate_temporal_order (evidences : List (Evidence V)) : List Str :=
  let change := earliest_ts "change" evidences
  let mechanism := earliest_ts "mechanism" evidences
  let impact := earliest_ts "impact" evidences
  violation "CHANGE" "MECHANISM" change mechanism ++
    violation "MECHANISM" "IMPACT" mechanism impact ++
    violation "CHANGE" "IMPACT" change impact

inductive Level where
  | LOW
  | MEDIUM
  | HIGH
deriving DecidableEq, Repr

def MODEL_RANK : Level → ℕ
  | .LOW => 0
  | .MEDIUM => 1
  | .HIGH => 2

inductive Track where
  | A
  | B
  | INSUFFICIENT
deriving DecidableEq, Repr

def has_layer (layer : String) (evidences : List (Evidence V)) : Bool :=
  evidences.any (in_layer layer)

def mechanism_count (evidences : List (Evidence V)) : ℕ := evidences.countP (in_layer "mechanism")

def unexplained (e : Evidence V) : Bool := e.contradicts_hypothesis && !e.contradiction_explained

def score_confidence (evidences : List (Evidence V)) : Level × Track :=
  if evidences.isEmpty then (.LOW, .INSUFFICIENT)
  else
    let has_change := has_layer "change" evidences
    let has_impact := has_layer "impact" evidences
    let has_temporal := has_layer "temporal" evidences
    let mechanisms := mechanism_count evidences
    let present_ordered := ["change", "mechanism", "impact"].filter (has_layer · evidences)
    if !(validate_temporal_order evidences).isEmpty then (.LOW, .INSUFFICIENT)
    else if 0 < evidences.countP unexplained then (.LOW, .INSUFFICIENT)
    else if has_change && 1 ≤ mechanisms && has_impact then
      if 3 ≤ count_independent evidences then (.HIGH, .A) else (.MEDIUM, .A)
    else if !has_change && 2 ≤ mechanisms && has_impact then (.HIGH, .B)
    else if has_change && has_impact && has_temporal then (.HIGH, .A)
    else if 2 ≤ present_ordered.length then (.MEDIUM, if has_change then .A else .B)
    else (.LOW, .INSUFFICIENT)

end Score

theorem derivation_pair_symm (a b : Evidence V) : derivation_pair a b = derivation_pair b a := by
  unfold derivation_pair
  rw [Bool.or_comm, Bool.or_comm a.fault_domain.isEmpty, Bool.beq_comm (a := a.fault_domain)]

theorem shared_trace_symm (a b : Evidence V) : shared_trace a b = shared_trace b a := by
  unfold shared_trace
  rw [Bool.and_comm (is_set a.trace_id), Bool.beq_comm (a := a.trace_id)]

theorem are_derived_symm (a b : Evidence V) : are_derived a b = are_derived b a := by
  rw [are_derived, are_derived, shared_trace_symm, derivation_pair_symm,
    Bool.or_comm (derivation_link a b)]

theorem same_layer_and_domain_symm (a b : Evidence V) :
    same_layer_and_domain a b = same_layer_and_domain b a := by
  unfold same_layer_and_domain
  rw [Bool.beq_comm (a := a.causal_layer), Bool.beq_comm (a := a.fault_domain)]
  ac_rfl

theorem dependent_symm (a b : Evidence V) : dependent a b = dependent b a := by
  rw [dependent, dependent, are_derived_symm, same_layer_and_domain_symm]

theorem dependent_at_symm (evidences : List (Evidence V)) (i j : ℕ) :
    dependent_at evidences i j = dependent_at evidences j i := by
  unfold dependent_at
  cases evidences[i]? with
  | none => cases evidences[j]? <;> rfl
  | some a =>
    cases evidences[j]? with
    | none => rfl
    | some b => exact dependent_symm a b

theorem dependent_at_lt (evidences : List (Evidence V)) (i j : ℕ)
    (h : dependent_at evidences i j = true) : i < evidences.length ∧ j < evidences.length := by
  unfold dependent_at at h
  split at h
  · next a b ha hb =>
    exact ⟨(List.getElem?_eq_some_iff.mp ha).1, (List.getElem?_eq_some_iff.mp hb).1⟩
  · cases h

theorem mem_dependent_pairs (evidences : List (Evidence V)) (i j : ℕ) :
    (i, j) ∈ dependent_pairs evidences ↔ i < j ∧ dependent_at evidences i j = true := by
  simp only [dependent_pairs, List.mem_flatMap, List.mem_range, List.mem_map, List.mem_filter,
    List.mem_range'_1, Prod.mk.injEq]
  constructor
  · rintro ⟨i, _, j, ⟨⟨hij, _⟩, hdep⟩, rfl, rfl⟩
    exact ⟨by omega, hdep⟩
  · rintro ⟨hij, hdep⟩
    obtain ⟨hi, hj⟩ := dependent_at_lt evidences i j hdep
    exact ⟨i, hi, j, ⟨⟨by omega, by omega⟩, hdep⟩, rfl, rfl⟩

/-- Two positions whose items are not independent. -/
def Linked (evidences : List (Evidence V)) (i j : ℕ) : Prop :=
  i ≠ j ∧ dependent_at evidences i j = true

theorem linked_symm (evidences : List (Evidence V)) (i j : ℕ) (h : Linked evidences i j) :
    Linked evidences j i :=
  ⟨h.1.symm, dependent_at_symm evidences i j ▸ h.2⟩

/-- The groups of evidence that links hold together. -/
noncomputable def groups (evidences : List (Evidence V)) : ℕ :=
  components (Linked evidences) (Finset.range evidences.length)

/-- The groups with an item that `e` depends on. -/
noncomputable def joined_groups (evidences : List (Evidence V)) (e : Evidence V) : ℕ :=
  marked (Linked evidences) (Finset.range evidences.length)
    (fun i => ∃ a, evidences[i]? = some a ∧ dependent e a = true)

theorem connected_pairs (evidences : List (Evidence V)) (i j : ℕ) :
    Connected (fun a b => (a, b) ∈ dependent_pairs evidences) (Finset.range evidences.length) i j ↔
      Connected (Linked evidences) (Finset.range evidences.length) i j := by
  constructor
  · refine eqvGen_le (fun a b hab => ?_)
    obtain ⟨ha, hb, hlink⟩ := hab
    obtain ⟨hlt, hdep⟩ := (mem_dependent_pairs evidences a b).mp hlink
    exact .rel _ _ ⟨ha, hb, Nat.ne_of_lt hlt, hdep⟩
  · refine eqvGen_le (fun a b hab => ?_)
    obtain ⟨ha, hb, hne, hdep⟩ := hab
    rcases Nat.lt_or_gt_of_ne hne with hlt | hlt
    · exact .rel _ _ ⟨ha, hb, (mem_dependent_pairs evidences a b).mpr ⟨hlt, hdep⟩⟩
    · rw [dependent_at_symm] at hdep
      have hlink := (mem_dependent_pairs evidences b a).mpr ⟨hlt, hdep⟩
      exact .symm _ _ (.rel _ _ ⟨hb, ha, hlink⟩)

/-- The independence count is the number of groups. -/
theorem count_independent_eq (evidences : List (Evidence V)) :
    count_independent evidences = groups evidences := by
  unfold count_independent
  by_cases hempty : evidences.isEmpty = true
  · rw [if_pos hempty, List.isEmpty_iff.mp hempty]
    simp [groups, components]
  · rw [if_neg hempty]
    have hpairs : ∀ p ∈ dependent_pairs evidences,
        p.1 ∈ List.range evidences.length ∧ p.2 ∈ List.range evidences.length := by
      rintro ⟨i, j⟩ hp
      obtain ⟨_, hdep⟩ := (mem_dependent_pairs evidences i j).mp hp
      simpa using dependent_at_lt evidences i j hdep
    have hrange : (List.range evidences.length).toFinset = Finset.range evidences.length := by
      ext i
      simp
    rw [roots_components _ _ _ (Nat.lt_succ_self _) hpairs, hrange]
    exact components_eq_of_connected (connected_pairs evidences)

/-- Where an item stands once another has been put in at `k`. -/
def shifted (k i : ℕ) : ℕ := if i < k then i else i + 1

theorem shifted_injective (k : ℕ) : Function.Injective (shifted k) := by
  intro i j h
  unfold shifted at h
  split at h <;> split at h <;> omega

theorem get_shifted (before after : List (Evidence V)) (e : Evidence V) (i : ℕ) :
    (before ++ e :: after)[shifted before.length i]? = (before ++ after)[i]? := by
  unfold shifted
  split
  · next h => rw [List.getElem?_append_left h, List.getElem?_append_left h]
  · next h =>
    rw [List.getElem?_append_right (by omega), List.getElem?_append_right (by omega),
      show i + 1 - before.length = (i - before.length) + 1 by omega, List.getElem?_cons_succ]

theorem range_insert (k n : ℕ) (h : k ≤ n) :
    Finset.range (n + 1) = insert k ((Finset.range n).image (shifted k)) := by
  ext i
  simp only [Finset.mem_range, Finset.mem_insert, Finset.mem_image, shifted]
  constructor
  · intro hi
    by_cases hik : i = k
    · exact .inl hik
    · by_cases hlt : i < k
      · exact .inr ⟨i, by omega, if_pos hlt⟩
      · exact .inr ⟨i - 1, by omega, by rw [if_neg (by omega)]; omega⟩
  · rintro (rfl | ⟨j, hj, rfl⟩)
    · omega
    · split <;> omega

/-- One more item, wherever it stands: the groups it depends on become one. -/
theorem groups_insert (before after : List (Evidence V)) (e : Evidence V) :
    groups (before ++ e :: after) + joined_groups (before ++ after) e =
      groups (before ++ after) + 1 := by
  let k := before.length
  have hnew : k ∉ (Finset.range (before ++ after).length).image (shifted k) := by
    simp only [Finset.mem_image, shifted, not_exists, not_and]
    intro i _ h
    split at h <;> omega
  have hlength : (before ++ e :: after).length = (before ++ after).length + 1 := by
    simp only [List.length_append, List.length_cons]
    omega
  have hlinked : ∀ i j, Linked (before ++ e :: after) (shifted k i) (shifted k j) ↔
      Linked (before ++ after) i j := by
    intro i j
    simp only [Linked, dependent_at, get_shifted, k, (shifted_injective _).ne_iff]
  have hmark : ∀ i, Linked (before ++ e :: after) k (shifted k i) ↔
      ∃ a, (before ++ after)[i]? = some a ∧ dependent e a = true := by
    intro i
    have hne : k ≠ shifted k i := by
      unfold shifted
      split <;> omega
    simp only [Linked, hne, ne_eq, not_false_eq_true, true_and, dependent_at, get_shifted, k,
      List.getElem?_append_right (Nat.le_refl before.length), Nat.sub_self, List.getElem?_cons_zero]
    cases (before ++ after)[i]? <;> simp
  have hinsert := components_insert (Linked (before ++ e :: after)) _ k
    (linked_symm (before ++ e :: after)) hnew
  rw [components_image _ _ _ (shifted_injective k), marked_image _ _ _ (shifted_injective k),
    components_congr (fun i _ j _ => hlinked i j),
    marked_congr (fun i _ j _ => hlinked i j) (fun i _ => hmark i),
    ← range_insert k _ (by simp [k])] at hinsert
  rw [groups, hlength]
  exact hinsert

theorem joined_groups_eq_zero_iff (evidences : List (Evidence V)) (e : Evidence V) :
    joined_groups evidences e = 0 ↔ ∀ a ∈ evidences, dependent e a = false := by
  rw [joined_groups, marked_eq_zero_iff]
  constructor
  · intro h a ha
    obtain ⟨i, hi, hget⟩ := List.mem_iff_getElem.mp ha
    have hnot := h i (Finset.mem_range.mpr hi)
    by_contra hdep
    exact hnot ⟨a, by rw [List.getElem?_eq_getElem hi, hget], by simpa using hdep⟩
  · rintro h i _ ⟨a, hget, hdep⟩
    rw [h a (List.mem_of_getElem? hget)] at hdep
    cases hdep

end AigentSquad.Investigation
