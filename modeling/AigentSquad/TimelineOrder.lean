import AigentSquad.FallibleSort
import AigentSquad.Instants
import AigentSquad.LoweredConfidence

/-!
# The timeline and real time

`build_timeline` and `validate_temporal_order` compare timestamps as texts. They
follow the instants exactly where the order of the texts does.
-/

set_option autoImplicit false

namespace AigentSquad.TimelineOrder
open AigentSquad.PyText AigentSquad.PyJson AigentSquad.Interaction AigentSquad.Investigation
open AigentSquad.Confidence AigentSquad.EvidenceExchange AigentSquad.Effects
open AigentSquad.LoweredConfidence AigentSquad.RunInvestigation AigentSquad.FallibleSort
open AigentSquad.ChatStorage (UtcTime isoformat_lt)
open AigentSquad.Instants

/-! ### The sort -/

section Sorting
variable [Values]

def earlier_item (e f : Item) : Except Exn Bool := Values.lt e.timestamp f.timestamp

theorem insert_timed_eq (e : Item) (l : List Item) :
    insert_timed e l = FallibleSort.insert earlier_item e l := by
  induction l with
  | nil => rfl
  | cons f fs ih =>
    rw [insert_timed, FallibleSort.insert, ih]
    rfl

theorem sort_timed_eq (l : List Item) : sort_timed l = sort earlier_item l := by
  unfold sort_timed sort
  congr 1
  funext sorted e
  exact insert_timed_eq e sorted

/-- Both exceptions of the timeline, and what it is without them. -/
theorem build_timeline_ok_iff (py : Runtime) (evidences : List Item)
    (built : List Item × List Item) :
    build_timeline py evidences = .ok built ↔
      ∃ sorted, sort earlier_item (evidences.filter timed) = .ok sorted ∧
        (∀ e ∈ evidences, timed e = true → is_text e.summary = true) ∧
        built = (evidences.map (annotated py), sorted.map (annotated py)) := by
  have htexts : ∀ sorted, sort earlier_item (evidences.filter timed) = .ok sorted →
      (sorted.all (fun e => is_text e.summary) = true ↔
        ∀ e ∈ evidences, timed e = true → is_text e.summary = true) := by
    intro sorted hsorted
    rw [((sort_perm _ _ _ hsorted).all_eq), List.all_eq_true]
    simp only [List.mem_filter, and_imp]
  rw [build_timeline, sort_timed_eq]
  cases hsort : sort earlier_item (evidences.filter timed) with
  | error x => simp [bind, Except.bind]
  | ok sorted =>
    have hall := htexts sorted hsort
    simp only [bind, Except.bind, Except.ok.injEq, exists_eq_left', ← hall]
    cases sorted.all (fun e => is_text e.summary) <;> simp [eq_comm]

/-- Texts can always be compared. -/
theorem lawful_texts : Lawful (fun s t : Json => Values.lt s t) (fun j => is_text j = true) where
  symm a b ha hb _ := by
    cases a with
    | str s =>
      cases b with
      | str t => exact ⟨_, Values.lt_text t s⟩
      | _ => cases hb
    | _ => cases ha
  asymm a b ha hb h := by
    cases a with
    | str s =>
      cases b with
      | str t =>
        rw [Values.lt_text, Except.ok.injEq, decide_eq_true_eq] at h
        rw [Values.lt_text, decide_eq_false (fun hts => List.lt_asymm h hts)]
      | _ => cases hb
    | _ => cases ha
  trans a b c ha hb hc h h' := by
    cases a with
    | str s =>
      cases b with
      | str t =>
        cases c with
        | str u =>
          rw [Values.lt_text, Except.ok.injEq, decide_eq_true_eq] at h
          rw [Values.lt_text, Except.ok.injEq, decide_eq_false_iff_not] at h'
          rw [Values.lt_text, decide_eq_false (fun hus => h' (List.lt_trans hus h))]
        | _ => cases hc
      | _ => cases hb
    | _ => cases ha

end Sorting

/-! ### Evidence of texts -/

/-- An item whose four fields are texts. -/
def typed (e : Evidence Str) : Item where
  source_agent := e.source_agent
  signal_type := .str e.signal_type
  timestamp := .str e.timestamp
  strength := .str e.strength
  summary := .str e.summary
  is_causal_candidate := e.is_causal_candidate
  signal_id := e.signal_id
  signal_subtype := e.signal_subtype
  causal_layer := e.causal_layer
  fault_domain := e.fault_domain
  timestamp_precision := e.timestamp_precision
  raw_query := e.raw_query
  derivation_source := e.derivation_source
  is_recurring := e.is_recurring
  first_occurrence := e.first_occurrence
  contradicts_hypothesis := e.contradicts_hypothesis
  contradiction_explained := e.contradiction_explained
  trace_id := e.trace_id
  id := e.id

def stamped (e : Evidence Str) : Bool := !e.timestamp.isEmpty

theorem timed_typed (e : Evidence Str) : timed (typed e) = stamped e := by
  cases h : e.timestamp <;> simp [timed, typed, stamped, Json.truthy, h]

theorem filter_typed (evidences : List (Evidence Str)) :
    (evidences.map typed).filter timed = (evidences.filter stamped).map typed := by
  rw [List.filter_map]
  congr 1
  exact List.filter_congr (fun e _ => timed_typed e)

section Typed
variable [Values]

theorem sort_typed (evidences : List (Evidence Str)) :
    ∃ sorted, sort earlier_item (evidences.map typed) = .ok sorted ∧
      sorted.Perm (evidences.map typed) ∧ Sorted earlier_item sorted := by
  have htext : ∀ e ∈ evidences.map typed, is_text e.timestamp = true := by
    intro e he
    obtain ⟨e, _, rfl⟩ := List.mem_map.mp he
    rfl
  have laws : Lawful earlier_item (fun e => is_text e.timestamp = true) :=
    lawful_texts.comap _ Evidence.timestamp
  have hpairs : (evidences.map typed).Pairwise (Comparable earlier_item) := by
    rw [List.pairwise_map]
    exact List.pairwise_of_forall (fun e f => ⟨_, Values.lt_text _ _⟩)
  obtain ⟨sorted, hsorted⟩ := (sort_ok_iff laws _ htext).mpr hpairs
  exact ⟨sorted, hsorted, sort_perm _ _ _ hsorted, sort_sorted laws _ _ htext hsorted⟩

theorem timeline_typed (py : Runtime) (evidences : List (Evidence Str)) :
    ∃ sorted, build_timeline py (evidences.map typed) =
        .ok ((evidences.map typed).map (annotated py), sorted.map (annotated py)) ∧
      sorted.Perm ((evidences.filter stamped).map typed) ∧ Sorted earlier_item sorted := by
  obtain ⟨sorted, hsort, hperm, hsorted⟩ := sort_typed (evidences.filter stamped)
  refine ⟨sorted, ?_, hperm, hsorted⟩
  refine (build_timeline_ok_iff py _ _).mpr ⟨sorted, ?_, ?_, rfl⟩
  · rw [filter_typed]
    exact hsort
  · intro e he _
    obtain ⟨e, _, rfl⟩ := List.mem_map.mp he
    rfl

theorem earliest_typed (ts : List Str) :
    earliest (ts.map Json.str) = (earliest ts).map Json.str := by
  have hbefore : ∀ s t : Str, Stamp.before (Json.str s) (Json.str t) = Stamp.before s t := by
    intro s t
    change (Values.lt (Json.str s) (Json.str t)).toOption.getD false = decide (s < t)
    rw [Values.lt_text]
    rfl
  cases ts with
  | nil => rfl
  | cons t ts =>
    simp only [earliest, List.map_cons, List.foldl_map, Option.map_some, Option.some.injEq]
    rw [← List.foldl_hom Json.str]
    intro best t
    rw [hbefore]
    split <;> rfl

/-- The nonempty timestamps of a layer. -/
def stamps (layer : String) (evidences : List (Evidence Str)) : List Str :=
  ((evidences.filter (in_layer layer)).map Evidence.timestamp).filter Stamp.truthy

theorem earliest_ts_typed (layer : String) (evidences : List (Evidence Str)) :
    earliest_ts layer (evidences.map typed) = (earliest (stamps layer evidences)).map Json.str := by
  have hstamps : (((evidences.map typed).filter (in_layer layer)).map Evidence.timestamp).filter
      Stamp.truthy = (stamps layer evidences).map Json.str := by
    have htruthy : ∀ s : Str, Stamp.truthy (Json.str s) = Stamp.truthy s := by
      intro s
      cases s <;> rfl
    have hlayer : (evidences.map typed).filter (in_layer layer) =
        (evidences.filter (in_layer layer)).map typed := List.filter_map
    have htimes : ((evidences.filter (in_layer layer)).map typed).map Evidence.timestamp =
        ((evidences.filter (in_layer layer)).map Evidence.timestamp).map Json.str := by
      rw [List.map_map, List.map_map]
      rfl
    rw [hlayer, htimes, List.filter_map, stamps]
    exact congrArg (List.map Json.str) (List.filter_congr (fun s _ => htruthy s))
  rw [earliest_ts, hstamps, earliest_typed]

end Typed

/-! ### The instants -/

section Instants
variable (reading : Str → Option ℚ)

/-- What a timestamp denotes. -/
def instant (e : Item) : Option ℚ :=
  match e.timestamp with
  | .str s => reading s
  | _ => none

def NotLater (i j : Option ℚ) : Prop := ∃ a ∈ i, ∃ b ∈ j, a ≤ b

def Earlier (i j : Option ℚ) : Prop := ∃ a ∈ i, ∃ b ∈ j, a < b

/-- Each timestamp denotes an instant. -/
def Dated (evidences : List (Evidence Str)) : Prop :=
  ∀ e ∈ evidences, stamped e = true → (reading e.timestamp).isSome = true

/-- Exactly the timestamped items, by the instants they denote. -/
structure InTime (py : Runtime) (evidences : List (Evidence Str)) (timeline : List Item) :
    Prop where
  items : timeline.Perm (((evidences.filter stamped).map typed).map (annotated py))
  order : timeline.Pairwise (fun e f => NotLater (instant reading e) (instant reading f))

def TextsInTime (evidences : List (Evidence Str)) : Prop :=
  ∀ e ∈ evidences, ∀ f ∈ evidences, stamped e = true → stamped f = true →
    e.timestamp < f.timestamp → NotLater (reading e.timestamp) (reading f.timestamp)

theorem notLater_of_eq {i j : Option ℚ} (hij : i = j) (h : i.isSome = true) : NotLater i j := by
  subst hij
  obtain ⟨a, ha⟩ := Option.isSome_iff_exists.mp h
  exact ⟨a, ha, a, ha, le_refl a⟩

/-- The item is later or the same, as a text. -/
theorem sorted_typed_iff [Values] (e f : Evidence Str) :
    earlier_item (typed f) (typed e) = .ok false ↔ ¬ f.timestamp < e.timestamp := by
  rw [earlier_item, typed, typed, Values.lt_text, Except.ok.injEq, decide_eq_false_iff_not]

/-- What is earlier as a text stands first in a sorted list, and what stands first is not
later. -/
theorem notLater_of_earlier [Values] (sorted : List Item) (hsorted : Sorted earlier_item sorted)
    (hirrefl : ∀ x ∈ sorted, earlier_item x x = .ok false)
    (horder : sorted.Pairwise (fun x y => NotLater (instant reading x) (instant reading y))) :
    ∀ x ∈ sorted, ∀ y ∈ sorted, earlier_item x y = .ok true →
      NotLater (instant reading x) (instant reading y) := by
  refine List.Pairwise.forall_of_forall_of_flip ?_ (List.Pairwise.imp ?_ horder)
    (List.Pairwise.imp ?_ hsorted)
  · intro x hx hlt
    rw [hirrefl x hx] at hlt
    cases hlt
  · exact fun hxy _ => hxy
  · intro x y hxy hlt
    rw [hxy] at hlt
    cases hlt

/-- The order of the texts and that of the instants agree on a sorted list if they do
item by item. -/
theorem inTime_iff [Values] (py : Runtime) (evidences : List (Evidence Str)) (sorted : List Item)
    (hdated : Dated reading evidences)
    (hperm : sorted.Perm ((evidences.filter stamped).map typed))
    (hsorted : Sorted earlier_item sorted) :
    InTime reading py evidences (sorted.map (annotated py)) ↔ TextsInTime reading evidences := by
  have hmem : ∀ x ∈ sorted, ∃ e ∈ evidences, stamped e = true ∧ typed e = x := by
    intro x hx
    obtain ⟨e, he, rfl⟩ := List.mem_map.mp (hperm.mem_iff.mp hx)
    exact ⟨e, (List.mem_filter.mp he).1, (List.mem_filter.mp he).2, rfl⟩
  constructor
  · intro h e he f hf hse hsf hlt
    have hxe : typed e ∈ sorted :=
      hperm.mem_iff.mpr (List.mem_map_of_mem (List.mem_filter.mpr ⟨he, hse⟩))
    have hxf : typed f ∈ sorted :=
      hperm.mem_iff.mpr (List.mem_map_of_mem (List.mem_filter.mpr ⟨hf, hsf⟩))
    have hirrefl : ∀ x ∈ sorted, earlier_item x x = .ok false := by
      intro x hx
      obtain ⟨e, _, _, rfl⟩ := hmem x hx
      exact (sorted_typed_iff e e).mpr (List.lt_irrefl _)
    have horder : sorted.Pairwise
        (fun x y => NotLater (instant reading x) (instant reading y)) := by
      have hmapped := h.order
      rw [List.pairwise_map] at hmapped
      exact hmapped
    exact notLater_of_earlier reading sorted hsorted hirrefl horder _ hxe _ hxf
      ((Values.lt_text _ _).trans (by rw [decide_eq_true hlt]))
  · intro h
    refine ⟨hperm.map _, List.pairwise_map.mpr ?_⟩
    refine List.Pairwise.imp_of_mem ?_ hsorted
    intro x y hx hy hxy
    obtain ⟨e, he, hse, rfl⟩ := hmem x hx
    obtain ⟨f, hf, hsf, rfl⟩ := hmem y hy
    by_cases hlt : e.timestamp < f.timestamp
    · exact h e he f hf hse hsf hlt
    · have heq := List.le_antisymm ((sorted_typed_iff e f).mp hxy) hlt
      exact notLater_of_eq (congrArg reading heq) (hdated e he hse)

/-! ### Layers -/

/-- Two layers, the cause first, and their names in a violation. -/
structure Layers where
  cause : String
  effect : String
  cause_name : String
  effect_name : String

def ORDERED_LAYERS : List Layers :=
  [⟨"change", "mechanism", "CHANGE", "MECHANISM"⟩, ⟨"mechanism", "impact", "MECHANISM", "IMPACT"⟩,
    ⟨"change", "impact", "CHANGE", "IMPACT"⟩]

/-- The violation of two layers, if one is reported. -/
def report {V : Type} [Stamp V] (p : Layers) (evidences : List (Evidence V)) : List Str :=
  violation p.cause_name p.effect_name (earliest_ts p.cause evidences)
    (earliest_ts p.effect evidences)

theorem validate_reports {V : Type} [Stamp V] (evidences : List (Evidence V)) :
    validate_temporal_order evidences = ORDERED_LAYERS.flatMap (report · evidences) := by
  simp [validate_temporal_order, ORDERED_LAYERS, report]

/-- The instants of a layer. -/
def instants (layer : String) (evidences : List (Evidence Str)) : Set ℚ :=
  {a | ∃ s ∈ stamps layer evidences, a ∈ reading s}

/-- The earliest instant of the cause is after that of the effect. -/
def Reversed (p : Layers) (evidences : List (Evidence Str)) : Prop :=
  ∃ a b, IsLeast (instants reading p.cause evidences) a ∧
    IsLeast (instants reading p.effect evidences) b ∧ b < a

/-- The timeline and the violations follow the instants: what is reported is the violation
of each two layers that are reversed. -/
structure FollowsTime [Values] (py : Runtime) (evidences : List (Evidence Str)) : Prop where
  timeline : ∃ marked timeline,
    build_timeline py (evidences.map typed) = .ok (marked, timeline) ∧
      InTime reading py evidences timeline
  reports : validate_temporal_order (evidences.map typed) =
    ORDERED_LAYERS.flatMap (report · (evidences.map typed))
  violations : ∀ p ∈ ORDERED_LAYERS,
    report p (evidences.map typed) ≠ [] ↔ Reversed reading p evidences

def First (ts : List Str) (t : Str) : Prop := t ∈ ts ∧ ∀ s ∈ ts, ¬ s < t

/-- The texts are in the order of the instants, strictly so where the first text of an
effect comes before that of its cause. -/
structure TextsFollow (evidences : List (Evidence Str)) : Prop where
  order : TextsInTime reading evidences
  first : ∀ p ∈ ORDERED_LAYERS, ∀ c e, First (stamps p.cause evidences) c →
    First (stamps p.effect evidences) e → e < c → Earlier (reading e) (reading c)

theorem report_ne_nil_iff [Values] (p : Layers) (evidences : List (Evidence Str)) :
    report p (evidences.map typed) ≠ [] ↔
      ∃ c e, First (stamps p.cause evidences) c ∧ First (stamps p.effect evidences) e ∧ e < c := by
  have hbefore : ∀ c e : Str, Stamp.before (Json.str e) (Json.str c) = decide (e < c) := by
    intro c e
    change (Values.lt (Json.str e) (Json.str c)).toOption.getD false = decide (e < c)
    rw [Values.lt_text]
    rfl
  simp only [First, ← earliest_iff]
  rw [report, earliest_ts_typed, earliest_ts_typed]
  cases earliest (stamps p.cause evidences) with
  | none => simp [violation]
  | some c =>
    cases earliest (stamps p.effect evidences) with
    | none => simp [violation]
    | some e =>
      simp only [Option.map_some, violation, hbefore, Option.some.injEq]
      split <;> simp_all

theorem mem_stamps (layer : String) (evidences : List (Evidence Str)) (s : Str)
    (h : s ∈ stamps layer evidences) :
    ∃ e ∈ evidences, stamped e = true ∧ e.timestamp = s := by
  obtain ⟨hmem, hset⟩ := List.mem_filter.mp h
  obtain ⟨e, he, rfl⟩ := List.mem_map.mp hmem
  exact ⟨e, (List.mem_filter.mp he).1, hset, rfl⟩

variable {reading}

/-- Where the texts are in the order of the instants, the first text of a layer denotes
its earliest instant. -/
theorem first_isLeast {evidences : List (Evidence Str)} (hdated : Dated reading evidences)
    (horder : TextsInTime reading evidences) (layer : String) (t : Str)
    (ht : First (stamps layer evidences) t) :
    ∃ a ∈ reading t, IsLeast (instants reading layer evidences) a := by
  obtain ⟨e, he, hse, rfl⟩ := mem_stamps layer evidences t ht.1
  obtain ⟨a, ha⟩ := Option.isSome_iff_exists.mp (hdated e he hse)
  refine ⟨a, ha, ⟨e.timestamp, ht.1, ha⟩, ?_⟩
  rintro b ⟨s, hs, hb⟩
  obtain ⟨f, hf, hsf, rfl⟩ := mem_stamps layer evidences s hs
  by_cases hlt : e.timestamp < f.timestamp
  · obtain ⟨a', ha', b', hb', hle⟩ := horder e he f hf hse hsf hlt
    rwa [Option.mem_unique ha ha', Option.mem_unique hb hb']
  · have heq := List.le_antisymm (ht.2 _ hs) hlt
    rw [heq] at ha
    exact (Option.mem_unique ha hb).le

theorem exists_first (ts : List Str) (h : ts ≠ []) : ∃ t, First ts t := by
  cases hts : earliest ts with
  | none => exact absurd ((earliest_eq_none_iff ts).mp hts) h
  | some t => exact ⟨t, (earliest_iff ts t).mp hts⟩

theorem reversed_iff {evidences : List (Evidence Str)} (hdated : Dated reading evidences)
    (horder : TextsInTime reading evidences) (p : Layers) :
    Reversed reading p evidences ↔
      ∃ c e, First (stamps p.cause evidences) c ∧ First (stamps p.effect evidences) e ∧
        Earlier (reading e) (reading c) := by
  constructor
  · rintro ⟨a, b, ha, hb, hlt⟩
    obtain ⟨s, hs, -⟩ := ha.1
    obtain ⟨t, ht, -⟩ := hb.1
    obtain ⟨c, hc⟩ := exists_first _ (List.ne_nil_of_mem hs)
    obtain ⟨e, he⟩ := exists_first _ (List.ne_nil_of_mem ht)
    obtain ⟨a', ha', hleast⟩ := first_isLeast hdated horder p.cause c hc
    obtain ⟨b', hb', hleast'⟩ := first_isLeast hdated horder p.effect e he
    refine ⟨c, e, hc, he, b', hb', a', ha', ?_⟩
    rwa [hleast.unique ha, hleast'.unique hb]
  · rintro ⟨c, e, hc, he, b, hb, a, ha, hlt⟩
    obtain ⟨a', ha', hleast⟩ := first_isLeast hdated horder p.cause c hc
    obtain ⟨b', hb', hleast'⟩ := first_isLeast hdated horder p.effect e he
    rw [Option.mem_unique ha ha', Option.mem_unique hb hb'] at hlt
    exact ⟨a', b', hleast, hleast', hlt⟩

theorem first_unique {ts : List Str} {s t : Str} (hs : First ts s) (ht : First ts t) : s = t :=
  List.le_antisymm (hs.2 t ht.1) (ht.2 s hs.1)

/-- The texts of two layers that are reversed in time are reversed too. -/
theorem lt_of_earlier {evidences : List (Evidence Str)} (horder : TextsInTime reading evidences)
    (p : Layers) (c e : Str) (hc : First (stamps p.cause evidences) c)
    (he : First (stamps p.effect evidences) e) (h : Earlier (reading e) (reading c)) : e < c := by
  obtain ⟨b, hb, a, ha, hlt⟩ := h
  by_contra hle
  obtain ⟨x, hx, hsx, rfl⟩ := mem_stamps p.cause evidences c hc.1
  obtain ⟨y, hy, hsy, rfl⟩ := mem_stamps p.effect evidences e he.1
  by_cases hxy : x.timestamp < y.timestamp
  · obtain ⟨a', ha', b', hb', hnot⟩ := horder x hx y hy hsx hsy hxy
    rw [Option.mem_unique ha ha', Option.mem_unique hb hb'] at hlt
    exact absurd hlt (not_lt.mpr hnot)
  · rw [List.le_antisymm hle hxy] at ha
    exact absurd (Option.mem_unique hb ha) hlt.ne

theorem violations_iff [Values] {evidences : List (Evidence Str)}
    (hdated : Dated reading evidences) (horder : TextsInTime reading evidences) (p : Layers) :
    (report p (evidences.map typed) ≠ [] ↔ Reversed reading p evidences) ↔
      ∀ c e, First (stamps p.cause evidences) c → First (stamps p.effect evidences) e → e < c →
        Earlier (reading e) (reading c) := by
  rw [report_ne_nil_iff, reversed_iff hdated horder p]
  constructor
  · intro h c e hc he hlt
    obtain ⟨c', e', hc', he', hearlier⟩ := h.mp ⟨c, e, hc, he, hlt⟩
    rwa [first_unique hc hc', first_unique he he']
  · intro h
    constructor
    · rintro ⟨c, e, hc, he, hlt⟩
      exact ⟨c, e, hc, he, h c e hc he hlt⟩
    · rintro ⟨c, e, hc, he, hearlier⟩
      exact ⟨c, e, hc, he, lt_of_earlier horder p c e hc he hearlier⟩

theorem follows_of_texts [Values] (py : Runtime) (evidences : List (Evidence Str))
    (hdated : Dated reading evidences) (h : TextsFollow reading evidences) :
    FollowsTime reading py evidences := by
  obtain ⟨sorted, hbuilt, hperm, hsorted⟩ := timeline_typed py evidences
  refine ⟨⟨_, _, hbuilt, ?_⟩, validate_reports _, fun p hp => ?_⟩
  · exact (inTime_iff reading py evidences sorted hdated hperm hsorted).mpr h.order
  · exact (violations_iff hdated h.order p).mpr (h.first p hp)

theorem texts_of_follows [Values] (py : Runtime) (evidences : List (Evidence Str))
    (hdated : Dated reading evidences) (h : FollowsTime reading py evidences) :
    TextsFollow reading evidences := by
  obtain ⟨sorted, hbuilt, hperm, hsorted⟩ := timeline_typed py evidences
  obtain ⟨marked, timeline, hbuilt', htimeline⟩ := h.timeline
  rw [hbuilt, Except.ok.injEq, Prod.mk.injEq] at hbuilt'
  obtain ⟨-, rfl⟩ := hbuilt'
  have horder := (inTime_iff reading py evidences sorted hdated hperm hsorted).mp htimeline
  exact ⟨horder, fun p hp => (violations_iff hdated horder p).mp (h.violations p hp)⟩

end Instants

/-! ### Texts of one format -/

theorem lt_of_isoformat_lt (s t : UtcTime) (h : s.isoformat < t.isoformat) : s < t := by
  by_contra hlt
  by_cases hts : t < s
  · exact List.lt_asymm h (isoformat_lt t s hts)
  · have hfields : s.fields = t.fields := List.le_antisymm hts hlt
    have hsame : s = t := by
      cases s
      cases t
      simpa [UtcTime.fields] using hfields
    rw [hsame] at h
    exact List.lt_irrefl _ h

/-- What `isoformat` writes in UTC is in the order of time. -/
theorem isoformat_follows [Values] (py : Runtime) (evidences : List (Evidence Str))
    (h : ∀ e ∈ evidences, stamped e = true → ∃ t : UtcTime, e.timestamp = t.isoformat) :
    FollowsTime iso8601 py evidences := by
  have hstrict : ∀ e ∈ evidences, ∀ f ∈ evidences, stamped e = true → stamped f = true →
      e.timestamp < f.timestamp → Earlier (iso8601 e.timestamp) (iso8601 f.timestamp) := by
    intro e he f hf hse hsf hlt
    obtain ⟨s, hs⟩ := h e he hse
    obtain ⟨t, ht⟩ := h f hf hsf
    rw [hs, ht] at hlt
    rw [hs, ht, iso8601_isoformat, iso8601_isoformat]
    exact ⟨_, rfl, _, rfl, moment_lt s t (lt_of_isoformat_lt s t hlt)⟩
  apply follows_of_texts
  · intro e he hse
    obtain ⟨t, ht⟩ := h e he hse
    rw [ht, iso8601_isoformat]
    rfl
  · constructor
    · intro e he f hf hse hsf hlt
      obtain ⟨a, ha, b, hb, hab⟩ := hstrict e he f hf hse hsf hlt
      exact ⟨a, ha, b, hb, hab.le⟩
    · intro p _ c e hc he hlt
      obtain ⟨x, hx, hsx, rfl⟩ := mem_stamps p.cause evidences c hc.1
      obtain ⟨y, hy, hsy, rfl⟩ := mem_stamps p.effect evidences e he.1
      exact hstrict y hy x hx hsy hsx hlt

/-- Whatever the instants are that the timestamps denote. -/
theorem follows_time_iff [Values] (reading : Str → Option ℚ) (py : Runtime)
    (evidences : List (Evidence Str)) (hdated : Dated reading evidences) :
    FollowsTime reading py evidences ↔ TextsFollow reading evidences :=
  ⟨texts_of_follows py evidences hdated, follows_of_texts py evidences hdated⟩

def observedAt (layer summary timestamp : String) : Evidence Str where
  source_agent := "kubernetes".toList
  signal_type := "event".toList
  timestamp := timestamp.toList
  strength := "forte".toList
  summary := summary.toList
  causal_layer := layer.toList

/-- Milliseconds, an offset and whole minutes. -/
def rolloutAndErrors : List (Evidence Str) :=
  [observedAt "impact" "error rate" "2026-06-14T10:05:00.250Z",
    observedAt "change" "deploy v2" "2026-06-14T09:58:30+00:00",
    observedAt "mechanism" "OOMKill" "2026-06-14T10:01Z"]

instance (i j : Option ℚ) : Decidable (NotLater i j) :=
  match i, j with
  | some a, some b => decidable_of_iff (a ≤ b) (by simp [NotLater])
  | some _, none => isFalse (by simp [NotLater])
  | none, _ => isFalse (by simp [NotLater])

theorem rolloutAndErrors_follows :
    Dated iso8601 rolloutAndErrors ∧
      @FollowsTime iso8601 textValues asciiRuntime rolloutAndErrors := by
  have hdated : Dated iso8601 rolloutAndErrors := by
    unfold Dated
    decide +kernel
  refine ⟨hdated, (@follows_time_iff textValues _ _ _ hdated).mpr ⟨?_, ?_⟩⟩
  · unfold TextsInTime
    decide +kernel
  · have hlayers : ∀ p ∈ ORDERED_LAYERS, ∀ c ∈ stamps p.cause rolloutAndErrors,
        ∀ e ∈ stamps p.effect rolloutAndErrors, ¬ e < c := by decide +kernel
    intro p hp c e hc he hlt
    exact absurd hlt (hlayers p hp c hc.1 e he.1)

/-- A deploy at eight in UTC, written with an offset of two hours. -/
def deployAhead : List (Evidence Str) :=
  [observedAt "change" "deploy v2" "2026-06-14T10:00:00+02:00",
    observedAt "mechanism" "OOMKill" "2026-06-14T09:00:00Z"]

theorem offset_misorders :
    ¬ ∀ evidences : List (Evidence Str), Dated iso8601 evidences →
      @FollowsTime iso8601 textValues asciiRuntime evidences := by
  intro h
  have hdated : Dated iso8601 deployAhead := by
    unfold Dated
    decide +kernel
  have htexts := @texts_of_follows iso8601 textValues asciiRuntime _ hdated (h _ hdated)
  have horder : ¬ TextsInTime iso8601 deployAhead := by
    unfold TextsInTime
    decide +kernel
  exact horder htexts.order

end AigentSquad.TimelineOrder
