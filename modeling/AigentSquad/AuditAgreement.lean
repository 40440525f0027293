import AigentSquad.AuditFormats

/-!
# Do the two audits agree

The JSON audit fails on a rule that mutates, the table audit on one whose rows
show it. The verdicts differ when the table hides every mutating rule, or shows
one where there is none.
-/

set_option autoImplicit false

namespace AigentSquad.AuditAgreement
open AigentSquad.PyText AigentSquad.PyJson AigentSquad.RbacAudit AigentSquad.RbacParsing
open AigentSquad.AuditFormats

variable (py : Runtime) (w : Widths)

/-- A verb offends, and the rule is not about self reviews alone. -/
def Mutates (rule : ResourceRule) : Prop :=
  (∃ verb ∈ rule.verbs, offends py verb = true) ∧
    (rule.resources = [] ∨ ∃ resource ∈ rule.resources, startswith resource SELF = false)

/-- One of the lines into which the rows of a rule are cut is flagged. -/
def Shown (rule : ResourceRule) : Prop :=
  ∃ row ∈ rows w rule, ∃ piece ∈ row.splitOnP isLineBreak, Flagged py (strip piece)

/-- The verdict is the same on both formats. -/
def Agree (rules : List ResourceRule) (raw : Str) : Prop :=
  ∃ json_rules, parse_json_output py raw = some json_rules ∧
    (audit_rules py json_rules = [] ↔
      audit_rules py (parse_table_output py (table w rules)) = [])

theorem caught_read_rule (rule : ResourceRule) : Caught py (read_rule rule) ↔ Mutates py rule := by
  have hskipped : skipped (read_rule rule) = false ↔
      rule.resources = [] ∨ ∃ resource ∈ rule.resources, startswith resource SELF = false := by
    rw [skipped, Bool.and_eq_false_iff, Bool.not_eq_false', List.isEmpty_iff, List.all_eq_false]
    simp only [Bool.not_eq_true]
    exact Iff.rfl
  rw [Caught, hskipped, Mutates, and_comm]
  exact Iff.rfl

theorem fails_iff (rules : List RBACRule) :
    audit_rules py rules ≠ [] ↔ ∃ rule ∈ rules, Caught py rule := by
  rw [ne_eq, passes_iff]
  simp

theorem json_fails_iff (rules : List ResourceRule) :
    audit_rules py (rules.map read_rule) ≠ [] ↔ ∃ rule ∈ rules, Mutates py rule := by
  simp [fails_iff, caught_read_rule]

theorem table_fails_iff (rules : List ResourceRule) :
    audit_rules py (parse_table_output py (table w rules)) ≠ [] ↔
      ∃ rule ∈ rules, Shown py w rule := by
  rw [fails_iff, table_caught,
    exists_data_line (P := fun line => Flagged py (strip line)) (not_flagged_blank py)]
  exact Iff.rfl

/-- Two lookouts over one list come to the same answer when they see one thing
together, or each sees something alone or neither does. -/
theorem same_answer_iff {α : Type} (xs : List α) (P Q : α → Prop) :
    ((∃ x ∈ xs, P x) ↔ ∃ x ∈ xs, Q x) ↔
      (∃ x ∈ xs, P x ∧ Q x) ∨ ((∃ x ∈ xs, P x ∧ ¬ Q x) ↔ ∃ x ∈ xs, Q x ∧ ¬ P x) := by
  by_cases hboth : ∃ x ∈ xs, P x ∧ Q x
  · obtain ⟨x, hx, hp, hq⟩ := hboth
    exact iff_of_true (iff_of_true ⟨x, hx, hp⟩ ⟨x, hx, hq⟩) (.inl ⟨x, hx, hp, hq⟩)
  · have hp : (∃ x ∈ xs, P x ∧ ¬ Q x) ↔ ∃ x ∈ xs, P x :=
      exists_congr fun x => and_congr_right fun hx =>
        and_iff_left_of_imp fun hp hq => hboth ⟨x, hx, hp, hq⟩
    have hq : (∃ x ∈ xs, Q x ∧ ¬ P x) ↔ ∃ x ∈ xs, Q x :=
      exists_congr fun x => and_congr_right fun hx =>
        and_iff_left_of_imp fun hq hp => hboth ⟨x, hx, hp, hq⟩
    rw [or_iff_right hboth, hp, hq]

theorem agree_iff (rules : List ResourceRule) (raw : Str) (h : JsonRendering py rules raw) :
    Agree py w rules raw ↔
      ((∃ rule ∈ rules, Mutates py rule) ↔ ∃ rule ∈ rules, Shown py w rule) := by
  rw [Agree, parse_json_rendering h, ← json_fails_iff, ← table_fails_iff]
  simp only [Option.some.injEq, exists_eq_left', ne_eq, not_iff_not]

/-! ## Plain rules -/

/-- A rule whose rows show it for what it is. -/
structure Plain (rule : ResourceRule) : Prop where
  named : rule.resources ≠ []
  begins : ∀ resource ∈ rule.resources, ∃ c ∈ resource.head?, isspace c = false
  unbroken : ∀ texts ∈ [rule.verbs, rule.apiGroups, rule.resources, rule.resourceNames],
    ∀ text ∈ texts, ∀ c ∈ text, isLineBreak c = false
  verbs : ∀ verb ∈ rule.verbs, ∀ c ∈ verb, isspace c = false ∧ c ≠ ']'

theorem mem_join {c : Char} {sep : Str} {xs : List Str} (h : c ∈ join sep xs) :
    c ∈ sep ∨ ∃ x ∈ xs, c ∈ x := by
  induction xs with
  | nil => cases h
  | cons x xs ih =>
    by_cases hnil : xs = []
    · subst hnil
      exact .inr ⟨x, List.mem_cons_self, h⟩
    · rw [join_cons _ _ _ hnil, List.mem_append, List.mem_append] at h
      rcases h with (h | h) | h
      · exact .inr ⟨x, List.mem_cons_self, h⟩
      · exact .inl h
      · exact (ih h).imp_right fun ⟨y, hy, hc⟩ => ⟨y, List.mem_cons_of_mem x hy, hc⟩

theorem mem_bracket {c : Char} {xs : List Str} (h : c ∈ bracket xs) :
    c ∈ ['[', ' ', ']'] ∨ ∃ x ∈ xs, c ∈ x := by
  rcases List.mem_cons.mp h with rfl | h
  · exact .inl (by simp)
  · rcases List.mem_append.mp h with h | h
    · rcases mem_join h with h | h
      · exact .inl (by simp [List.mem_singleton.mp h])
      · exact .inr h
    · obtain rfl := List.mem_singleton.mp h
      exact .inl (by simp)

theorem mem_resource_cell {c : Char} {resource group : Str} (h : c ∈ resource_cell resource group) :
    c ∈ resource ∨ c = '.' ∨ c ∈ group := by
  rcases List.mem_append.mp h with h | h
  · exact .inl ((List.takeWhile_prefix _).subset h)
  · rcases List.mem_append.mp h with h | h
    · split_ifs at h
      · cases h
      · exact .inr (List.mem_cons.mp h)
    · exact .inl ((List.dropWhile_suffix _).subset h)

variable {py w} {rule : ResourceRule} {resource group : Str}

theorem plain_row_unbroken (h : Plain rule) (hresource : resource ∈ rule.resources)
    (hgroup : group ∈ groups rule) : ∀ c ∈ row w rule resource group, isLineBreak c = false := by
  have hsigns : ∀ c ∈ ['[', ' ', ']', '.'], isLineBreak c = false := by decide
  have hbracket : ∀ texts : List Str, (∀ text ∈ texts, ∀ c ∈ text, isLineBreak c = false) →
      ∀ c ∈ bracket texts, isLineBreak c = false := by
    intro texts htexts c hc
    rcases mem_bracket hc with hc | ⟨text, htext, hc⟩
    · exact hsigns c (List.mem_append_left ['.'] hc)
    · exact htexts text htext c hc
  have hpadded : ∀ width cell, (∀ c ∈ cell, isLineBreak c = false) →
      ∀ c ∈ padded width cell, isLineBreak c = false := by
    intro width cell hcell c hc
    rcases mem_padded hc with hc | rfl
    · exact hcell c hc
    · decide
  have hgroup : ∀ c ∈ group, isLineBreak c = false := by
    unfold groups at hgroup
    split_ifs at hgroup
    · obtain rfl := List.mem_singleton.mp hgroup
      simp
    · exact h.unbroken _ (by simp) group hgroup
  have hcell : ∀ c ∈ resource_cell resource group, isLineBreak c = false := by
    intro c hc
    rcases mem_resource_cell hc with hc | rfl | hc
    · exact h.unbroken _ (by simp) resource hresource c hc
    · decide
    · exact hgroup c hc
  rw [row, List.forall_mem_append, List.forall_mem_append, List.forall_mem_append]
  exact ⟨hpadded _ _ hcell, hpadded _ _ (hbracket [] (by simp)),
    hpadded _ _ (hbracket _ (h.unbroken _ (by simp))), hbracket _ (h.unbroken _ (by simp))⟩

theorem takeWhile_stop (p : Char → Bool) (a b : Str) (h : ∀ c ∈ b.head?, p c = false) :
    (a ++ b).takeWhile p = a.takeWhile p := by
  induction a with
  | nil =>
    cases b with
    | nil => rfl
    | cons c b => simp [h c rfl]
  | cons c a ih =>
    rw [List.cons_append, List.takeWhile_cons, List.takeWhile_cons, ih]

/-- What ends a resource in its row: its group, its subresource or the padding. -/
def cell_end : Char → Bool := fun c => c ∉ ['.', '/', ' ']

theorem subresource_head (resource : Str) :
    ∀ c ∈ (resource.dropWhile (fun c => c ≠ '/')).head?, c = '/' := by
  intro c hc
  have hnot := List.head?_dropWhile_not (fun c => decide (c ≠ '/')) resource
  rw [Option.mem_def] at hc
  rw [hc] at hnot
  simpa using hnot

/-- A row begins with the resource, as far as its subresource. -/
theorem row_split (rule : ResourceRule) (resource group : Str) :
    ∃ rest, row w rule resource group = resource.takeWhile (fun c => c ≠ '/') ++ rest ∧
      ∃ c ∈ rest.head?, c ∈ ['.', '/', ' '] ∧
        (resource.head? = some '/' → c ≠ ' ') := by
  refine ⟨(if group.isEmpty then [] else '.' :: group) ++
    (resource.dropWhile (fun c => c ≠ '/') ++
      (List.replicate (w.resources - (resource_cell resource group).length + 3) ' ' ++
        (padded w.urls (bracket []) ++ (padded w.names (bracket rule.resourceNames) ++
          bracket rule.verbs)))), ?_, ?_⟩
  · rw [row, padded, List.append_assoc]
    nth_rewrite 1 [resource_cell]
    rw [List.append_assoc, List.append_assoc]
  · cases group with
    | cons d group => exact ⟨'.', rfl, by simp, by simp⟩
    | nil =>
      cases hsub : resource.dropWhile (fun c => c ≠ '/') with
      | cons d sub =>
        have hd := subresource_head resource d (by rw [hsub]; rfl)
        exact ⟨d, rfl, by simp [hd], by simp [hd]⟩
      | nil =>
        refine ⟨' ', rfl, by simp, fun hslash => ?_⟩
        obtain ⟨rest, rfl⟩ := List.head?_eq_some_iff.mp hslash
        simp at hsub

theorem row_resource (rule : ResourceRule) (resource group : Str) :
    (row w rule resource group).takeWhile cell_end = resource.takeWhile cell_end := by
  obtain ⟨rest, hrest, c, hc, hend, _⟩ := row_split (w := w) rule resource group
  have hrest_end : ∀ d ∈ rest.head?, cell_end d = false := by
    intro d hd
    obtain rfl := Option.mem_unique hc hd
    exact decide_eq_false (not_not_intro hend)
  have hsub_end : ∀ d ∈ (resource.dropWhile (fun c => c ≠ '/')).head?, cell_end d = false := by
    intro d hd
    rw [subresource_head resource d hd]
    decide
  rw [hrest, takeWhile_stop _ _ _ hrest_end, ← takeWhile_stop _ _ _ hsub_end,
    List.takeWhile_append_dropWhile]

theorem plain_row_stripped (h : Plain rule) (hresource : resource ∈ rule.resources) :
    strip (row w rule resource group) = row w rule resource group := by
  refine (strip_eq_self_iff _).mpr ⟨?_, (row_ends w rule resource group).2⟩
  obtain ⟨c, hc, hspace⟩ := h.begins resource hresource
  obtain ⟨tail, rfl⟩ := List.head?_eq_some_iff.mp hc
  obtain ⟨rest, hrest, d, hd, hend, hslash⟩ := row_split (w := w) rule (c :: tail) group
  rw [hrest]
  by_cases hcut : c = '/'
  · subst hcut
    have hne : d ≠ ' ' := hslash rfl
    intro e he
    obtain rfl := Option.mem_unique hd (by simpa using he)
    simp only [List.mem_cons, List.not_mem_nil, or_false] at hend
    rcases hend with rfl | rfl | rfl
    · decide
    · decide
    · exact absurd rfl hne
  · intro e he
    rw [List.takeWhile_cons, if_pos (by simpa using hcut)] at he
    obtain rfl := Option.some.inj he
    exact hspace

theorem plain_row_begins (h : Plain rule) (hresource : resource ∈ rule.resources) :
    startswith (strip (row w rule resource group)) SELF = startswith resource SELF := by
  have hletters : ∀ c ∈ SELF, cell_end c = true := by decide
  rw [plain_row_stripped h hresource, ← startswith_takeWhile cell_end _ SELF hletters, row_resource,
    startswith_takeWhile cell_end _ SELF hletters]

theorem plain_row_verbs (h : Plain rule) (hresource : resource ∈ rule.resources) :
    (bracketed (strip (row w rule resource group))).getLast? = some (join [' '] rule.verbs) := by
  have hrow : ∃ front blank, row w rule resource group =
      front ++ ']' :: ((blank ++ '[' :: join [' '] rule.verbs) ++ ']' :: []) ∧
        ∀ c ∈ blank, c = ' ' := by
    refine ⟨padded w.resources (resource_cell resource group) ++ (padded w.urls (bracket []) ++
      '[' :: join [' '] rule.resourceNames),
      List.replicate (w.names - (bracket rule.resourceNames).length + 3) ' ', ?_,
      fun c hc => List.eq_of_mem_replicate hc⟩
    rw [row, padded.eq_1 w.names]
    simp [bracket]
  obtain ⟨front, blank, hfront, hblank⟩ := hrow
  have hopen : '[' ∉ blank := fun hmem => absurd (hblank _ hmem) (by decide)
  have hclose : ']' ∉ blank ++ '[' :: join [' '] rule.verbs := by
    rw [List.mem_append, List.mem_cons, not_or, not_or]
    refine ⟨fun hmem => absurd (hblank _ hmem) (by decide), by decide, fun hmem => ?_⟩
    rcases mem_join hmem with hmem | ⟨verb, hverb, hmem⟩
    · exact absurd hmem (by decide)
    · exact (h.verbs verb hverb _ hmem).2 rfl
  rw [plain_row_stripped h hresource, hfront, bracketed_append, bracketed_closed [] hclose,
    opened_after _ _ hopen]
  exact List.getLast?_concat

theorem plain_row_flagged (h : Plain rule) (hresource : resource ∈ rule.resources) :
    Flagged py (strip (row w rule resource group)) ↔
      startswith resource SELF = false ∧ ∃ verb ∈ rule.verbs, offends py verb = true := by
  have hnil : offends py [] = false := by
    have hlower : lower py [] = [] := rfl
    rw [offends, hlower]
    decide
  have hwords := mem_split_join rule.verbs (fun verb hverb c hc => (h.verbs verb hverb c hc).1)
  rw [Flagged, plain_row_begins h hresource, plain_row_verbs h hresource]
  simp only [Option.mem_some_iff, exists_eq_left', hwords]
  refine and_congr_right fun _ => exists_congr fun verb => ?_
  rw [and_assoc, and_congr_right_iff]
  intro _
  refine and_iff_right_of_imp fun hoffends => ?_
  rintro rfl
  rw [hnil] at hoffends
  cases hoffends

theorem groups_nonempty (rule : ResourceRule) : ∃ group, group ∈ groups rule := by
  unfold groups
  split_ifs with hempty
  · exact ⟨[], List.mem_singleton_self _⟩
  · exact List.exists_mem_of_ne_nil _ (by simpa using hempty)

theorem plain_shown (h : Plain rule) : Shown py w rule ↔ Mutates py rule := by
  have hpieces : ∀ resource ∈ rule.resources, ∀ group ∈ groups rule,
      (row w rule resource group).splitOnP isLineBreak = [row w rule resource group] :=
    fun resource hresource group hgroup =>
      List.splitOnP_eq_singleton (plain_row_unbroken h hresource hgroup)
  constructor
  · rintro ⟨line, hline, piece, hpiece, hflagged⟩
    obtain ⟨resource, hresource, hrow⟩ := List.mem_flatMap.mp hline
    obtain ⟨group, hgroup, rfl⟩ := List.mem_map.mp hrow
    rw [hpieces resource hresource group hgroup, List.mem_singleton] at hpiece
    rw [hpiece, plain_row_flagged h hresource] at hflagged
    exact ⟨hflagged.2, .inr ⟨resource, hresource, hflagged.1⟩⟩
  · rintro ⟨hverbs, hresources⟩
    obtain ⟨resource, hresource, hself⟩ := hresources.resolve_left h.named
    obtain ⟨group, hgroup⟩ := groups_nonempty rule
    refine ⟨row w rule resource group, ?_, row w rule resource group, ?_, ?_⟩
    · exact List.mem_flatMap.mpr ⟨resource, hresource, List.mem_map_of_mem hgroup⟩
    · rw [hpieces resource hresource group hgroup]
      exact List.mem_singleton_self _
    · exact (plain_row_flagged h hresource).mpr ⟨hself, hverbs⟩

/-- On plain rules the verdicts are the same, whatever the columns' widths. -/
theorem plain_rules_agree (py : Runtime) (w : Widths) (rules : List ResourceRule) (raw : Str)
    (h : JsonRendering py rules raw) (hplain : ∀ rule ∈ rules, Plain rule) :
    Agree py w rules raw := by
  rw [agree_iff py w rules raw h]
  exact exists_congr fun rule => and_congr_right fun hrule => (plain_shown (hplain rule hrule)).symm

/-! ## Any rules -/

/-- The verdicts are the same when a rule that mutates is shown, or else one is hidden
exactly if one is shown that does not mutate. -/
theorem audits_agree_iff (py : Runtime) (w : Widths) (rules : List ResourceRule) (raw : Str)
    (h : JsonRendering py rules raw) :
    Agree py w rules raw ↔
      (∃ rule ∈ rules, Mutates py rule ∧ Shown py w rule) ∨
        ((∃ rule ∈ rules, Mutates py rule ∧ ¬ Shown py w rule) ↔
          ∃ rule ∈ rules, Shown py w rule ∧ ¬ Mutates py rule) := by
  rw [agree_iff py w rules raw h, same_answer_iff]

/-- A subresource, a group and a name in brackets. -/
def scaler : ResourceRule where
  verbs := ["get".toList, "Patch".toList]
  apiGroups := ["apps".toList]
  resources := ["deployments/scale".toList]
  resourceNames := ["[web]".toList]

def fitted : Widths := ⟨22, 17, 27⟩

theorem scaler_caught :
    Agree asciiRuntime fitted [scaler] (dumps false (.obj (review_json [scaler]))) := by
  have hmutates : Mutates asciiRuntime scaler :=
    ⟨⟨"Patch".toList, by decide, by decide⟩,
      .inr ⟨"deployments/scale".toList, by decide, by decide⟩⟩
  have hplain : Plain scaler := by
    refine ⟨by decide, ?_, by decide, by decide⟩
    intro resource hresource
    obtain rfl := List.mem_singleton.mp hresource
    exact ⟨'d', rfl, by decide⟩
  refine (audits_agree_iff asciiRuntime fitted [scaler] _
    (review_rendering asciiRuntime [scaler])).mpr (.inl ⟨scaler, ?_, hmutates, ?_⟩)
  · exact List.mem_singleton_self scaler
  · exact (plain_shown hplain).mpr hmutates

/-- A secret behind a name with a line separator and the word of the self reviews. -/
def disguised : ResourceRule where
  verbs := ["delete".toList]
  apiGroups := ["".toList]
  resources := ["secrets".toList]
  resourceNames := ["x\u2028selfsubject".toList, "db-password".toList]

theorem disguised_rule_passes :
    (∀ rule ∈ [disguised], rule.verbs ≠ []) ∧
      JsonRendering asciiRuntime [disguised] (dumps false (.obj (review_json [disguised]))) ∧
      ¬ Agree asciiRuntime fitted [disguised] (dumps false (.obj (review_json [disguised]))) := by
  have hrendering := review_rendering asciiRuntime [disguised]
  refine ⟨by decide, hrendering, ?_⟩
  rintro ⟨json_rules, hparse, hagree⟩
  rw [parse_json_rendering hrendering, Option.some.injEq] at hparse
  have htable : audit_rules asciiRuntime
      (parse_table_output asciiRuntime (table fitted [disguised])) = [] := by decide +kernel
  have hjson : audit_rules asciiRuntime ([disguised].map read_rule) ≠ [] := by decide
  rw [hparse] at hjson
  exact hjson (hagree.mpr htable)

end AigentSquad.AuditAgreement
