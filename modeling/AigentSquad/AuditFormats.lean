import AigentSquad.CaseFolding
import AigentSquad.JsonRoundTrip
import AigentSquad.RbacParsing

/-!
# One account, two formats

The rules of an account as kubectl lists them, in JSON and as a table, and the
verdict of the audit on each. A rule is lost in the table when its row does not
show what it grants.
-/

set_option autoImplicit false

namespace AigentSquad.AuditFormats
open AigentSquad.PyText AigentSquad.PyJson AigentSquad.RbacAudit AigentSquad.RbacParsing
open AigentSquad.CaseFolding

structure ResourceRule where
  verbs : List Str
  apiGroups : List Str
  resources : List Str
  resourceNames : List Str
deriving DecidableEq

/-! ## JSON -/

def text_array (xs : List Str) : Json := .arr (xs.map Json.str)

/-- A member left out when it is empty. -/
def omitted (key : Str) (xs : List Str) : List (Str × Json) :=
  if xs.isEmpty then [] else [(key, text_array xs)]

def rule_members (rule : ResourceRule) : List (Str × Json) :=
  ("verbs".toList, text_array rule.verbs) :: (omitted "apiGroups".toList rule.apiGroups ++
    (omitted "resources".toList rule.resources ++
      (omitted "resourceNames".toList rule.resourceNames ++ [])))

def rule_json (rule : ResourceRule) : Json := .obj (rule_members rule)

def status_json (rules : List ResourceRule) : Json :=
  .obj [("resourceRules".toList, .arr (rules.map rule_json)), ("nonResourceRules".toList, .arr []),
    ("incomplete".toList, .bool false)]

/-- A text of a rules review, its other members aside. -/
def JsonRendering (py : Runtime) (rules : List ResourceRule) (raw : Str) : Prop :=
  ∃ review, loads py raw = .ok (.obj review) ∧
    Json.get review "status".toList = some (status_json rules)

/-- What the audit reads of a rule. -/
def read_rule (rule : ResourceRule) : RBACRule :=
  ⟨rule.resources, rule.apiGroups, rule.resourceNames, rule.verbs, []⟩

theorem mapM_text_item (xs : List Str) : (xs.map Json.str).mapM text_item = some xs := by
  induction xs with
  | nil => rfl
  | cons x xs ih => simp [text_item, ih]

theorem texts_present {rr : List (Str × Json)} {key : Str} {xs : List Str}
    (h : Json.get rr key = some (text_array xs)) : texts rr key = some xs := by
  rw [texts, h]
  exact mapM_text_item xs

theorem get_cons_same (key : Str) (v : Json) (rr : List (Str × Json)) :
    Json.get ((key, v) :: rr) key = some v := by
  simp [Json.get]

theorem get_cons_other {key k : Str} (h : key ≠ k) (v : Json) (rr : List (Str × Json)) :
    Json.get ((key, v) :: rr) k = Json.get rr k := by
  simp [Json.get, h]

theorem get_omitted_other {key k : Str} (h : key ≠ k) (xs : List Str) (rr : List (Str × Json)) :
    Json.get (omitted key xs ++ rr) k = Json.get rr k := by
  rw [omitted]
  split_ifs
  · rfl
  · exact get_cons_other h _ rr

theorem texts_omitted {key : Str} (xs : List Str) {rr : List (Str × Json)}
    (h : Json.get rr key = none) : texts (omitted key xs ++ rr) key = some xs := by
  cases xs with
  | nil => rw [texts, show omitted key [] ++ rr = rr from rfl, h]
  | cons x xs => exact texts_present (get_cons_same key _ rr)

theorem texts_after {key k : Str} (h : key ≠ k) (v : Json) (rr : List (Str × Json)) :
    texts ((key, v) :: rr) k = texts rr k := by
  rw [texts, texts, get_cons_other h]

theorem texts_after_omitted {key k : Str} (h : key ≠ k) (xs : List Str)
    (rr : List (Str × Json)) : texts (omitted key xs ++ rr) k = texts rr k := by
  rw [texts, texts, get_omitted_other h]

theorem resource_rule_json (rule : ResourceRule) :
    resource_rule (rule_json rule) = some (read_rule rule) := by
  have hverbs : texts (rule_members rule) "verbs".toList = some rule.verbs :=
    texts_present (get_cons_same _ _ _)
  have hgroups : texts (rule_members rule) "apiGroups".toList = some rule.apiGroups := by
    rw [rule_members, texts_after (by decide)]
    refine texts_omitted _ ?_
    rw [get_omitted_other (by decide), get_omitted_other (by decide)]
    rfl
  have hresources : texts (rule_members rule) "resources".toList = some rule.resources := by
    rw [rule_members, texts_after (by decide), texts_after_omitted (by decide)]
    refine texts_omitted _ ?_
    rw [get_omitted_other (by decide)]
    rfl
  have hnames : texts (rule_members rule) "resourceNames".toList = some rule.resourceNames := by
    rw [rule_members, texts_after (by decide), texts_after_omitted (by decide),
      texts_after_omitted (by decide)]
    exact texts_omitted _ rfl
  rw [rule_json, resource_rule, hverbs, hgroups, hresources, hnames]
  rfl

theorem mapM_rule_json (rules : List ResourceRule) :
    (rules.map rule_json).mapM resource_rule = some (rules.map read_rule) := by
  induction rules with
  | nil => rfl
  | cons rule rules ih => simp [resource_rule_json, ih]

theorem parse_json_rendering {py : Runtime} {rules : List ResourceRule} {raw : Str}
    (h : JsonRendering py rules raw) :
    parse_json_output py raw = some (rules.map read_rule) := by
  obtain ⟨review, hraw, hstatus⟩ := h
  have hresource : Json.get [("resourceRules".toList, Json.arr (rules.map rule_json)),
      ("nonResourceRules".toList, .arr []), ("incomplete".toList, .bool false)]
        "resourceRules".toList = some (.arr (rules.map rule_json)) := get_cons_same _ _ _
  have hother : Json.get [("resourceRules".toList, Json.arr (rules.map rule_json)),
      ("nonResourceRules".toList, .arr []), ("incomplete".toList, .bool false)]
        "nonResourceRules".toList = some (.arr []) := by
    rw [get_cons_other (by decide), get_cons_same]
  rw [parse_json_output, hraw]
  dsimp only
  rw [hstatus, Option.getD_some, status_json]
  dsimp only
  rw [hresource, hother, Option.getD_some, Option.getD_some, elements, elements]
  simp only [Option.bind_eq_bind, Option.bind_some, mapM_rule_json, List.mapM_nil]
  simp

theorem textual_array (xs : List Str) : Textual (text_array xs) := by
  rw [text_array, Textual]
  induction xs with
  | nil => trivial
  | cons x xs ih => exact ⟨trivial, ih⟩

theorem textual_omitted (key : Str) (xs : List Str) (rr : List (Str × Json))
    (h : TextualPairs rr) : TextualPairs (omitted key xs ++ rr) := by
  rw [omitted]
  split_ifs
  · exact h
  · exact ⟨textual_array xs, h⟩

theorem keys_omitted (key : Str) (xs : List Str) (rr : List (Str × Json)) :
    ((omitted key xs ++ rr).map Prod.fst).Sublist (key :: rr.map Prod.fst) := by
  rw [omitted]
  split_ifs
  · exact List.sublist_cons_self _ _
  · exact List.Sublist.refl _

theorem textual_rule (rule : ResourceRule) : Textual (rule_json rule) := by
  have hnames := keys_omitted "resourceNames".toList rule.resourceNames []
  have hresources := (keys_omitted "resources".toList rule.resources _).trans
    (hnames.cons_cons "resources".toList)
  have hgroups := (keys_omitted "apiGroups".toList rule.apiGroups _).trans
    (hresources.cons_cons "apiGroups".toList)
  have hkeys := (hgroups.cons_cons "verbs".toList).nodup (of_decide_eq_true (by rfl))
  exact ⟨hkeys, textual_array _, textual_omitted _ _ _ (textual_omitted _ _ _
    (textual_omitted _ _ [] trivial))⟩

theorem textual_rules (rules : List ResourceRule) : TextualItems (rules.map rule_json) := by
  induction rules with
  | nil => trivial
  | cons rule rules ih => exact ⟨textual_rule rule, ih⟩

def review_json (rules : List ResourceRule) : List (Str × Json) :=
  [("kind".toList, .str "SelfSubjectRulesReview".toList),
    ("apiVersion".toList, .str "authorization.k8s.io/v1".toList),
    ("status".toList, status_json rules)]

/-- Every list of rules has such a text. -/
theorem review_rendering (py : Runtime) (rules : List ResourceRule) :
    JsonRendering py rules (dumps false (.obj (review_json rules))) := by
  have hstatus : Textual (status_json rules) :=
    ⟨of_decide_eq_true (by rfl), textual_rules rules, trivial, trivial, trivial⟩
  have hreview : Textual (.obj (review_json rules)) :=
    ⟨of_decide_eq_true (by rfl), trivial, trivial, hstatus, trivial⟩
  refine ⟨review_json rules, loads_dumps py false _ hreview, ?_⟩
  rw [review_json, get_cons_other (by decide), get_cons_other (by decide), get_cons_same]

/-! ## Table -/

/-- `resource.apigroup`, a subresource behind both. -/
def resource_cell (resource group : Str) : Str :=
  resource.takeWhile (fun c => c ≠ '/') ++
    ((if group.isEmpty then [] else '.' :: group) ++ resource.dropWhile (fun c => c ≠ '/'))

def bracket (xs : List Str) : Str := '[' :: (join [' '] xs ++ [']'])

/-- How wide the columns are. -/
structure Widths where
  resources : ℕ
  urls : ℕ
  names : ℕ

def padded (width : ℕ) (cell : Str) : Str := cell ++ List.replicate (width - cell.length + 3) ' '

def row (w : Widths) (rule : ResourceRule) (resource group : Str) : Str :=
  padded w.resources (resource_cell resource group) ++ (padded w.urls (bracket []) ++
    (padded w.names (bracket rule.resourceNames) ++ bracket rule.verbs))

def groups (rule : ResourceRule) : List Str :=
  if rule.apiGroups.isEmpty then [[]] else rule.apiGroups

/-- A row for each resource, in each of its groups. -/
def rows (w : Widths) (rule : ResourceRule) : List Str :=
  rule.resources.flatMap (fun resource => (groups rule).map (row w rule resource))

def header (w : Widths) : Str :=
  padded w.resources "Resources".toList ++ (padded w.urls "Non-Resource URLs".toList ++
    (padded w.names "Resource Names".toList ++ "Verbs".toList))

def table (w : Widths) (rules : List ResourceRule) : Str :=
  join "\n".toList (header w :: rules.flatMap (rows w)) ++ "\n".toList

/-! ## The lines of a table -/

theorem join_begins (sep x : Str) (xs : List Str) : ∃ rest, join sep (x :: xs) = x ++ rest := by
  cases xs with
  | nil => exact ⟨[], by simp⟩
  | cons y ys => exact ⟨sep ++ join sep (y :: ys), by rw [join_cons_cons, List.append_assoc]⟩

theorem last_of_join {P : Char → Prop} (sep : Str) (xs : List Str)
    (h : ∀ x ∈ xs, x ≠ [] ∧ ∀ c ∈ x.getLast?, P c) : ∀ c ∈ (join sep xs).getLast?, P c := by
  induction xs with
  | nil => simp
  | cons x xs ih =>
    obtain ⟨hx, hxs⟩ := List.forall_mem_cons.mp h
    cases xs with
    | nil => exact hx.2
    | cons y ys =>
      obtain ⟨rest, hrest⟩ := join_begins sep y ys
      have hne : join sep (y :: ys) ≠ [] := by
        simp [hrest, (hxs y List.mem_cons_self).1]
      rw [join_cons_cons, List.getLast?_append_of_ne_nil _ hne]
      exact ih hxs

theorem pieces_of_join (xs : List Str) (hne : xs ≠ []) :
    (join "\n".toList xs).splitOnP isLineBreak = xs.flatMap (List.splitOnP isLineBreak) := by
  induction xs with
  | nil => exact absurd rfl hne
  | cons x xs ih =>
    by_cases hnil : xs = []
    · subst hnil
      simp
    · rw [join_cons _ _ _ hnil, List.append_assoc]
      change (x ++ '\n' :: join "\n".toList xs).splitOnP isLineBreak = _
      rw [List.splitOnP_append_cons _ _ (by decide), ih hnil, List.flatMap_cons]

theorem mem_padded {width : ℕ} {cell : Str} {c : Char} (h : c ∈ padded width cell) :
    c ∈ cell ∨ c = ' ' := by
  rcases List.mem_append.mp h with h | h
  · exact .inl h
  · exact .inr (List.eq_of_mem_replicate h)

theorem header_letters (w : Widths) :
    ∀ c ∈ header w, isAscii c = true ∧ isLineBreak c = false := by
  have hspace : isAscii ' ' = true ∧ isLineBreak ' ' = false := by decide
  have hcell : ∀ width cell, (∀ c ∈ cell, isAscii c = true ∧ isLineBreak c = false) →
      ∀ c ∈ padded width cell, isAscii c = true ∧ isLineBreak c = false := by
    intro width cell h c hc
    rcases mem_padded hc with hc | rfl
    · exact h c hc
    · exact hspace
  unfold header
  rw [List.forall_mem_append, List.forall_mem_append, List.forall_mem_append]
  exact ⟨hcell _ _ (by decide), hcell _ _ (by decide), hcell _ _ (by decide), by decide⟩

theorem header_found (py : Runtime) (w : Widths) : is_header py (header w) = true := by
  rw [is_header, lower_ascii py _ (fun c hc => (header_letters w c hc).1), Bool.and_eq_true]
  simp only [isIn_iff]
  constructor
  · exact (List.prefix_append _ _).isInfix
  · rw [header, ← List.append_assoc, ← List.append_assoc, List.map_append]
    exact (List.suffix_append _ _).isInfix

theorem row_ends (w : Widths) (rule : ResourceRule) (resource group : Str) :
    row w rule resource group ≠ [] ∧
      ∀ c ∈ (row w rule resource group).getLast?, isspace c = false := by
  have hend : ∀ front : Str, front ++ bracket rule.verbs =
      (front ++ '[' :: join [' '] rule.verbs) ++ [']'] := by
    intro front
    simp [bracket]
  rw [row, ← List.append_assoc, ← List.append_assoc, hend, List.getLast?_concat]
  refine ⟨by simp, ?_⟩
  rintro c ⟨⟩
  decide

theorem header_ends (w : Widths) :
    header w ≠ [] ∧ ∀ c ∈ (header w).getLast?, isspace c = false := by
  rw [header, ← List.append_assoc, ← List.append_assoc,
    List.getLast?_append_of_ne_nil _ (by decide)]
  refine ⟨by simp, ?_⟩
  rintro c ⟨⟩
  decide

theorem strip_table (w : Widths) (rules : List ResourceRule) :
    strip (table w rules) = join "\n".toList (header w :: rules.flatMap (rows w)) := by
  obtain ⟨rest, hrest⟩ := join_begins "\n".toList (header w) (rules.flatMap (rows w))
  have hlast : ∀ x ∈ header w :: rules.flatMap (rows w),
      x ≠ [] ∧ ∀ c ∈ x.getLast?, isspace c = false := by
    refine List.forall_mem_cons.mpr ⟨header_ends w, fun x hx => ?_⟩
    obtain ⟨rule, _, hrow⟩ := List.mem_flatMap.mp hx
    obtain ⟨resource, _, hgroup⟩ := List.mem_flatMap.mp hrow
    obtain ⟨group, _, rfl⟩ := List.mem_map.mp hgroup
    exact row_ends w rule resource group
  have hfirst : ∀ c ∈ (join "\n".toList (header w :: rules.flatMap (rows w))).head?,
      isspace c = false := by
    rw [hrest, List.head?_append_of_ne_nil _ (header_ends w).1]
    rintro c ⟨⟩
    decide
  have hne : join "\n".toList (header w :: rules.flatMap (rows w)) ≠ [] := by
    rw [hrest]
    exact List.append_ne_nil_of_left_ne_nil (header_ends w).1 _
  rw [table, strip_append _ _ hne hfirst (last_of_join _ _ hlast),
    show rstrip "\n".toList = [] by rfl, List.append_nil]

theorem linesFrom_append (line s acc : Str) (h : ∀ c ∈ line, isLineBreak c = false) :
    linesFrom false acc (line ++ s) = linesFrom false (line.reverse ++ acc) s := by
  induction line generalizing acc with
  | nil => rfl
  | cons c line ih =>
    obtain ⟨hc, hline⟩ := List.forall_mem_cons.mp h
    rw [List.cons_append, linesFrom, if_neg (by simp), if_neg (by simp [hc]), ih (c :: acc) hline]
    simp

theorem splitlines_header (w : Widths) : splitlines (header w) = [header w] := by
  have hlines := linesFrom_append (header w) [] [] (fun c hc => (header_letters w c hc).2)
  rw [List.append_nil, List.append_nil] at hlines
  rw [splitlines, hlines, linesFrom, if_neg (by simpa using (header_ends w).1),
    List.reverse_reverse]

theorem splitlines_below_header (w : Widths) (s : Str) :
    splitlines (header w ++ '\n' :: s) = header w :: splitlines s := by
  have hlines := linesFrom_append (header w) ('\n' :: s) []
    (fun c hc => (header_letters w c hc).2)
  rw [List.append_nil] at hlines
  rw [splitlines, hlines, linesFrom, if_neg (by simp), if_pos (by decide), List.reverse_reverse]
  rfl

/-- The rows are read as the pieces between their line boundaries. -/
theorem exists_data_line {P : Str → Prop} (hnil : ¬ P []) (py : Runtime) (w : Widths)
    (rules : List ResourceRule) :
    (∃ line ∈ data_lines py (splitlines (strip (table w rules))), P line) ↔
      ∃ rule ∈ rules, ∃ row ∈ rows w rule, ∃ piece ∈ row.splitOnP isLineBreak, P piece := by
  have hheader : ∀ lines, data_lines py (header w :: lines) = lines := by
    intro lines
    simp [data_lines, List.findIdx?_cons, header_found]
  have hpieces : (∃ rule ∈ rules, ∃ row ∈ rows w rule,
      ∃ piece ∈ row.splitOnP isLineBreak, P piece) ↔
        ∃ piece ∈ (rules.flatMap (rows w)).flatMap (List.splitOnP isLineBreak), P piece := by
    simp only [List.mem_flatMap]
    tauto
  rw [hpieces, strip_table]
  by_cases hnone : rules.flatMap (rows w) = []
  · rw [hnone, join_one, splitlines_header, hheader]
    simp
  · rw [join_cons _ _ _ hnone, List.append_assoc]
    change (∃ line ∈ data_lines py (splitlines (header w ++ '\n' ::
      join "\n".toList (rules.flatMap (rows w)))), P line) ↔ _
    rw [splitlines_below_header, hheader, splitlines,
      exists_line hnil false [] _ (by simp) (by simp), List.reverse_nil, List.nil_append,
      pieces_of_join _ hnone]

end AigentSquad.AuditFormats
