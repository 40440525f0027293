import AigentSquad.FoundMatches
import AigentSquad.PyJson
import AigentSquad.RbacAudit

/-!
# Reading the rules of an account

`mcp_rbac_audit.py` reads the JSON kubectl prints, and falls back to its table.
Of a line of the table it takes the first word and the bracketed texts, the last
of which are the verbs.
-/

set_option autoImplicit false

namespace AigentSquad.RbacParsing
open AigentSquad.PyText AigentSquad.PyJson AigentSquad.Regex AigentSquad.RbacAudit
open AigentSquad.Substitution AigentSquad.FoundMatches

/-! ## JSON -/

/-- What iterating over a JSON value gives, unless it raises. -/
def elements : Json → Option (List Json)
  | .arr items => some items
  | .obj pairs => some (pairs.map (fun p => .str p.1))
  | .str s => some (s.map (fun c => .str [c]))
  | _ => none

def text_item : Json → Option Str
  | .str s => some s
  | _ => none

/-- `rr.get(key, [])`, a list of texts. -/
def texts (rr : List (Str × Json)) (key : Str) : Option (List Str) :=
  match Json.get rr key with
  | some (.arr items) => items.mapM text_item
  | some _ => none
  | none => some []

def resource_rule : Json → Option RBACRule
  | .obj rr => do
    let resources ← texts rr "resources".toList
    let api_groups ← texts rr "apiGroups".toList
    let resource_names ← texts rr "resourceNames".toList
    let verbs ← texts rr "verbs".toList
    pure ⟨resources, api_groups, resource_names, verbs, []⟩
  | _ => none

def non_resource_rule : Json → Option RBACRule
  | .obj nrr => do
    let verbs ← texts nrr "verbs".toList
    let non_resource_urls ← texts nrr "nonResourceURLs".toList
    pure ⟨[], [], [], verbs, non_resource_urls⟩
  | _ => none

/-- The rules, unless it raises or a field it reads is no list of texts. -/
def parse_json_output (py : Runtime) (raw : Str) : Option (List RBACRule) :=
  match loads py raw with
  | .ok (.obj data) =>
    match (Json.get data "status".toList).getD (.obj data) with
    | .obj status => do
      let resource_rules ← elements ((Json.get status "resourceRules".toList).getD (.arr []))
      let non_resource_rules ←
        elements ((Json.get status "nonResourceRules".toList).getD (.arr []))
      let rules ← resource_rules.mapM resource_rule
      let others ← non_resource_rules.mapM non_resource_rule
      pure (rules ++ others)
    | _ => none
  | _ => none

/-! ## Table -/

/-- `\[([^\]]*)\]` -/
def BRACKETED : Rx :=
  .seq (.set (fun c => c = '[')) (.seq (star (.set (fun c => c ≠ ']'))) (.set (fun c => c = ']')))

/-- Its group. -/
def inside (m : Str) : Str := m.tail.dropLast

/-- `brackets[-n].split()`, nothing for a blank one. -/
def words_at (brackets : List Str) (n : ℕ) : List Str :=
  split (brackets.getD (brackets.length - n) [])

/-- The resource and its group, as they are written `resource.apigroup`. -/
def resource_split : List Str → List Str × List Str
  | [resource] =>
    if '.' ∈ resource then
      ([resource.takeWhile (fun c => c ≠ '.')], [(resource.dropWhile (fun c => c ≠ '.')).tail])
    else ([resource], [])
  | resources => (resources, [])

def parse_table_line (py : Runtime) (line : Str) : Option RBACRule :=
  let brackets := (findall py.word BRACKETED line).map inside
  if brackets.isEmpty then none
  else
    let resource_part := strip (line.takeWhile (fun c => c ≠ '['))
    let named := resource_split ((split resource_part).take 1)
    some {
      resources := named.1
      api_groups := named.2
      resource_names := if 3 ≤ brackets.length then words_at brackets 2 else []
      verbs := words_at brackets 1
      non_resource_urls := if 3 ≤ brackets.length then words_at brackets 3 else [] }

def is_header (py : Runtime) (line : Str) : Bool :=
  isIn "resources".toList (lower py line) && isIn "verbs".toList (lower py line)

def data_lines (py : Runtime) (lines : List Str) : List Str :=
  match lines.findIdx? (is_header py) with
  | some header_idx => lines.drop (header_idx + 1)
  | none => lines

def parse_table_output (py : Runtime) (raw : Str) : List RBACRule :=
  let lines := (data_lines py (splitlines (strip raw))).map strip
  (lines.filter (fun line => !line.isEmpty)).filterMap (parse_table_line py)

/-! ## The bracketed texts of a line -/

/-- What follows the first opening bracket. -/
def opened (segment : Str) : Option Str :=
  if '[' ∈ segment then some (segment.dropWhile (fun c => c ≠ '[')).tail else none

/-- A text stands in brackets when it runs from the first `[` after the last `]` to
the next `]`. -/
def bracketed (line : Str) : List Str := (line.splitOn ']').dropLast.filterMap opened

theorem bracketed_append (a b : Str) :
    bracketed (a ++ ']' :: b) = (a.splitOn ']').filterMap opened ++ bracketed b := by
  have hsplit : (a ++ ']' :: b).splitOn ']' = a.splitOn ']' ++ b.splitOn ']' := by
    simp only [List.splitOn_eq_splitOnP]
    exact List.splitOnP_append_cons a b (by simp)
  rw [bracketed, hsplit, List.dropLast_append_of_ne_nil (List.splitOn_ne_nil _ _),
    List.filterMap_append, bracketed]

theorem splitOn_one {a : Str} (ha : ']' ∉ a) : a.splitOn ']' = [a] := by
  rw [List.splitOn_eq_splitOnP]
  refine List.splitOnP_eq_singleton fun c hc => ?_
  simpa using fun h : c = ']' => ha (h ▸ hc)

theorem bracketed_unclosed {a : Str} (ha : ']' ∉ a) : bracketed a = [] := by
  rw [bracketed, splitOn_one ha]
  rfl

theorem bracketed_closed {a : Str} (b : Str) (ha : ']' ∉ a) :
    bracketed (a ++ ']' :: b) = (opened a).toList ++ bracketed b := by
  rw [bracketed_append, splitOn_one ha]
  cases h : opened a <;> simp [h]

theorem opened_after (blank a : Str) (h : '[' ∉ blank) : opened (blank ++ '[' :: a) = some a := by
  have hskip : ∀ c ∈ blank, decide (c ≠ '[') = true :=
    fun c hc => decide_eq_true fun hopen => h (hopen ▸ hc)
  rw [opened, if_pos (by simp), List.dropWhile_append_of_pos hskip]
  simp

theorem opened_cons {c : Char} (a : Str) (hc : c ≠ '[') : opened (c :: a) = opened a := by
  simp [opened, hc, hc.symm]

theorem bracketed_cons {c : Char} (a : Str) (h : c ≠ '[' ∨ ']' ∉ a) :
    bracketed (c :: a) = bracketed a := by
  by_cases ha : ']' ∈ a
  · obtain ⟨u, v, rfl, hu⟩ := List.eq_append_cons_of_mem ha
    have hc : c ≠ '[' := h.resolve_right (not_not_intro ha)
    by_cases hclose : c = ']'
    · subst hclose
      exact bracketed_closed (a := []) _ (by simp)
    · rw [← List.cons_append, bracketed_closed v (by simp [hu, Ne.symm hclose]),
        bracketed_closed v hu, opened_cons u hc]
  · rw [bracketed_unclosed ha]
    by_cases hclose : c = ']'
    · subst hclose
      rw [← List.nil_append (']' :: a), bracketed_closed a (by simp), bracketed_unclosed ha]
      rfl
    · exact bracketed_unclosed (by simp [ha, Ne.symm hclose])

section Findall
variable (word : Char → Bool)

/-- A run up to the next closing bracket. -/
def unclosed : Char → Bool := fun c => c ≠ ']'

theorem unclosed_run (u : Str) : (∀ c ∈ u, unclosed c = true) ↔ ']' ∉ u := by
  constructor
  · intro h hmem
    simpa [unclosed] using h _ hmem
  · intro h c hc
    simpa [unclosed] using fun hclose : c = ']' => h (hclose ▸ hc)

theorem mem_ends_bracketed (p q : Pos) :
    q ∈ ends word BRACKETED p ↔ ∃ u, ']' ∉ u ∧ Reads p ('[' :: (u ++ [']'])) q := by
  have hrun : ∀ m k, k ∈ ends word (Regex.star (.set unclosed)) m ↔
      ∃ u, Reads m u k ∧ ']' ∉ u := by
    intro m k
    rw [Regex.star, mem_ends_rep_set word unclosed 0 none (fun _ h => nomatch h)]
    simp only [unclosed_run]
    exact ⟨fun ⟨u, hu, _, _, hall⟩ => ⟨u, hu, hall⟩,
      fun ⟨u, hu, hall⟩ => ⟨u, hu, Nat.zero_le _, (fun _ h => nomatch h), hall⟩⟩
  rw [show BRACKETED = .seq (.set (fun c => c = '[')) (.seq (Regex.star (.set unclosed))
    (.set (fun c => c = ']'))) from rfl]
  simp only [mem_ends_seq, hrun]
  simp only [ends, mem_step]
  constructor
  · rintro ⟨m, ⟨c, hc, hm⟩, k, ⟨u, hu, hall⟩, d, hd, hk⟩
    rw [of_decide_eq_true hc] at hm
    rw [of_decide_eq_true hd] at hk
    exact ⟨u, hall, hm.trans (hu.trans hk)⟩
  · rintro ⟨u, hu, h⟩
    obtain ⟨m, hm, hrest⟩ := (reads_append p q ['['] (u ++ [']'])).mp h
    obtain ⟨k, hk, hq⟩ := (reads_append m q u [']']).mp hrest
    exact ⟨m, ⟨'[', decide_eq_true rfl, hm⟩, k, ⟨u, hk, hu⟩, ']', decide_eq_true rfl, hq⟩

theorem not_taken_bracketed {b a : Str} {c : Char} (h : c ≠ '[' ∨ ']' ∉ a) (q : Pos) :
    ¬ Taken word BRACKETED ⟨b, c :: a⟩ q := by
  intro htaken
  obtain ⟨u, _, hread⟩ := (mem_ends_bracketed word _ q).mp (taken_mem word _ _ _ htaken)
  obtain ⟨rfl, rfl⟩ := List.cons.inj hread.after
  simp at h

theorem taken_bracketed (b u v : Str) (hu : ']' ∉ u) :
    ∃ q, Taken word BRACKETED ⟨b, '[' :: (u ++ ']' :: v)⟩ q ∧
      Reads ⟨b, '[' :: (u ++ ']' :: v)⟩ ('[' :: (u ++ [']'])) q ∧ q.after = v := by
  have hself : (⟨b, '[' :: (u ++ ']' :: v)⟩ : Pos) ∉
      ends word BRACKETED ⟨b, '[' :: (u ++ ']' :: v)⟩ := by
    intro h
    obtain ⟨w, _, hw⟩ := (mem_ends_bracketed word _ _).mp h
    have hlen := congrArg List.length hw.after
    simp only [List.length_append, List.length_cons, List.length_nil] at hlen
    omega
  have hread : Reads ⟨b, '[' :: (u ++ ']' :: v)⟩ ('[' :: (u ++ [']']))
      ⟨('[' :: (u ++ [']'])).reverse ++ b, v⟩ := ⟨rfl, by simp⟩
  obtain ⟨q, hq⟩ := taken_of_mem word _ _ _ hself
    ((mem_ends_bracketed word _ _).mpr ⟨u, hu, hread⟩)
  obtain ⟨w, hw, hwread⟩ := (mem_ends_bracketed word _ q).mp (taken_mem word _ _ _ hq)
  -- both end at the first closing bracket
  have hafter : u ++ ']' :: v = w ++ ']' :: q.after := by
    simpa using (List.cons.inj hwread.after).2
  obtain ⟨rfl, rfl⟩ := run_split unclosed u w v q.after ']' ((unclosed_run u).mpr hu)
    ((unclosed_run w).mpr hw) (by simp [unclosed]) hafter
  exact ⟨q, hq, hwread, rfl⟩

theorem inside_brackets (u : Str) : inside ('[' :: (u ++ [']'])) = u := by
  rw [inside, List.tail_cons, List.dropLast_concat]

theorem findallFrom_bracketed (n : ℕ) (b a : Str) (hn : a.length < n) :
    (findallFrom word BRACKETED n ⟨b, a⟩).map inside = bracketed a := by
  induction n generalizing b a with
  | zero => exact absurd hn (Nat.not_lt_zero _)
  | succ n ih =>
    cases a with
    | nil =>
      rw [findallFrom_end]
      rfl
    | cons c a =>
      by_cases h : c ≠ '[' ∨ ']' ∉ a
      · rw [findallFrom_kept word _ n b c a (not_taken_bracketed word h), bracketed_cons a h]
        exact ih _ _ (Nat.lt_of_succ_lt_succ hn)
      · rw [not_or, not_not, not_not] at h
        obtain ⟨rfl, ha⟩ := h
        obtain ⟨u, v, rfl, hu⟩ := List.eq_append_cons_of_mem ha
        obtain ⟨⟨b', a'⟩, htaken, hread, rfl⟩ := taken_bracketed word b u v hu
        have hclosed := bracketed_closed (a := '[' :: u) a' (by simp [hu])
        rw [show opened ('[' :: u) = some u from opened_after [] u (by simp),
          List.cons_append] at hclosed
        rw [findallFrom_taken word _ n _ _ _ htaken hread, List.map_cons, inside_brackets, hclosed,
          ih b' a' (by simp at hn; omega)]
        rfl

theorem findall_bracketed (line : Str) :
    (findall word BRACKETED line).map inside = bracketed line :=
  findallFrom_bracketed word _ [] line (Nat.lt_succ_self _)

end Findall

/-! ## The verdict on a line -/

def SELF : Str := "selfsubject".toList

/-- What a line is audited for: it does not begin like a self review, and a word of
its last bracketed text offends. -/
def Flagged (py : Runtime) (line : Str) : Prop :=
  startswith line SELF = false ∧
    ∃ verbs ∈ (bracketed line).getLast?, ∃ verb ∈ split verbs, offends py verb = true

theorem self_nonempty : SELF ≠ [] := by decide

theorem self_letters : ∀ c ∈ SELF, isspace c = false ∧ c ≠ '[' ∧ c ≠ '.' := by decide

theorem wordsFrom_first (s acc : Str) (hacc : acc ≠ []) :
    (wordsFrom acc s).take 1 = [acc.reverse ++ s.takeWhile (fun c => !isspace c)] := by
  induction s generalizing acc with
  | nil => simp [wordsFrom, hacc]
  | cons c s ih =>
    cases hc : isspace c with
    | true => simp [wordsFrom, hc, hacc]
    | false =>
      rw [wordsFrom, if_neg (by simp [hc]), ih (c :: acc) (by simp)]
      simp [hc]

theorem split_first (c : Char) (s : Str) (hc : isspace c = false) :
    (split (c :: s)).take 1 = [(c :: s).takeWhile (fun c => !isspace c)] := by
  rw [split, wordsFrom, if_neg (by simp [hc]), wordsFrom_first s [c] (by simp)]
  simp [hc]

theorem wordsFrom_space {c : Char} (hc : isspace c = true) (s t acc : Str) :
    wordsFrom acc (s ++ c :: t) = wordsFrom acc s ++ wordsFrom [] t := by
  induction s generalizing acc with
  | nil =>
    simp only [List.nil_append, wordsFrom, hc, if_true]
    split_ifs <;> rfl
  | cons d s ih =>
    rw [List.cons_append, wordsFrom, wordsFrom]
    split_ifs
    · exact ih []
    · rw [ih [], List.cons_append]
    · exact ih (d :: acc)

theorem wordsFrom_word (s acc : Str) (hs : ∀ c ∈ s, isspace c = false) :
    wordsFrom acc s = if (acc.reverse ++ s).isEmpty then [] else [acc.reverse ++ s] := by
  induction s generalizing acc with
  | nil => simp [wordsFrom]
  | cons c s ih =>
    obtain ⟨hc, hs⟩ := List.forall_mem_cons.mp hs
    rw [wordsFrom, if_neg (by simp [hc]), ih (c :: acc) hs]
    simp

/-- The nonempty ones among words joined by blanks. -/
theorem mem_split_join (xs : List Str) (h : ∀ x ∈ xs, ∀ c ∈ x, isspace c = false) (x : Str) :
    x ∈ split (join [' '] xs) ↔ x ∈ xs ∧ x ≠ [] := by
  have hword : ∀ y : Str, (∀ c ∈ y, isspace c = false) → (x ∈ split y ↔ x = y ∧ x ≠ []) := by
    intro y hy
    rw [split, wordsFrom_word y [] hy]
    cases y with
    | nil => simp
    | cons c y =>
      simp only [List.reverse_nil, List.nil_append, List.isEmpty_cons, Bool.false_eq_true, if_false,
        List.mem_singleton]
      exact (and_iff_left_of_imp (by rintro rfl; simp)).symm
  induction xs with
  | nil => simp [split, wordsFrom]
  | cons y ys ih =>
    obtain ⟨hy, hys⟩ := List.forall_mem_cons.mp h
    by_cases hnil : ys = []
    · subst hnil
      rw [join_one, hword y hy, List.mem_singleton]
    · have hrest : x ∈ wordsFrom [] (join [' '] ys) ↔ x ∈ ys ∧ x ≠ [] := ih hys
      have hfirst : x ∈ wordsFrom [] y ↔ x = y ∧ x ≠ [] := hword y hy
      rw [join_cons _ _ _ hnil, List.append_assoc, List.singleton_append, split,
        wordsFrom_space (by decide), List.mem_append, hfirst, hrest, List.mem_cons, or_and_right]

theorem startswith_takeWhile (p : Char → Bool) (s prefixed : Str) (h : ∀ c ∈ prefixed, p c = true) :
    startswith (s.takeWhile p) prefixed = startswith s prefixed := by
  rw [Bool.eq_iff_iff]
  simp only [startswith, List.isPrefixOf_iff_prefix]
  constructor
  · exact fun hs => hs.trans (List.takeWhile_prefix p)
  · rintro ⟨rest, rfl⟩
    rw [List.takeWhile_append_of_pos h]
    exact List.prefix_append _ _

theorem startswith_rstrip (s prefixed : Str) (hne : prefixed ≠ [])
    (hlast : ∀ c ∈ prefixed.getLast?, isspace c = false) :
    startswith (rstrip s) prefixed = startswith s prefixed := by
  rw [Bool.eq_iff_iff]
  simp only [startswith, List.isPrefixOf_iff_prefix]
  constructor
  · exact fun hs => hs.trans ( rstrip_prefix s)
  · rintro ⟨rest, rfl⟩
    rw [rstrip_append prefixed rest hne hlast]
    exact List.prefix_append _ _

theorem resource_split_first (resource : Str) :
    ∃ r, (resource_split [resource]).1 = [r] ∧ startswith r SELF = startswith resource SELF := by
  rw [resource_split]
  split_ifs
  · exact ⟨_, rfl, startswith_takeWhile _ _ _ (by simpa using fun c hc => (self_letters c hc).2.2)⟩
  · exact ⟨resource, rfl, rfl⟩

theorem skipped_rule (rule : RBACRule) (r : Str) (h : rule.resources = [r]) :
    skipped rule = startswith r SELF := by
  rw [skipped, h]
  simp only [List.isEmpty_cons, List.all_cons, List.all_nil, Bool.not_false, Bool.true_and,
    Bool.and_true]
  rfl

/-- The line of a skipped rule begins like a self review. -/
theorem resource_of_line (line : Str) (hline : ∀ c ∈ line.head?, isspace c = false)
    (rule : RBACRule)
    (h : rule.resources = (resource_split
      ((split (strip (line.takeWhile (fun c => c ≠ '[')))).take 1)).1) :
    skipped rule = startswith line SELF := by
  have hpart : startswith line SELF =
      startswith (rstrip (line.takeWhile (fun c => c ≠ '['))) SELF := by
    rw [startswith_rstrip _ SELF self_nonempty
        (fun c hc => (self_letters c (List.mem_of_getLast? hc)).1),
      startswith_takeWhile _ line SELF (by simpa using fun c hc => (self_letters c hc).2.1)]
  have hleft : lstrip (line.takeWhile (fun c => c ≠ '[')) = line.takeWhile (fun c => c ≠ '[') := by
    cases line with
    | nil => rfl
    | cons c line =>
      rw [List.takeWhile_cons]
      split_ifs
      · simp [lstrip, hline c rfl]
      · rfl
  rw [strip, hleft] at h
  rw [hpart]
  cases hresource : rstrip (line.takeWhile (fun c => c ≠ '[')) with
  | nil =>
    rw [hresource] at h
    rw [skipped, h]
    rfl
  | cons c rest =>
    have hc : isspace c = false := by
      have hhead := strip_head (line.takeWhile (fun c => c ≠ '[')) c
      rw [strip, hleft, hresource] at hhead
      exact hhead rfl
    rw [hresource, split_first c rest hc] at h
    obtain ⟨r, hr, hstart⟩ := resource_split_first ((c :: rest).takeWhile (fun c => !isspace c))
    rw [skipped_rule rule r (h.trans hr), hstart]
    exact startswith_takeWhile _ _ _ (by simpa using fun c hc => (self_letters c hc).1)

theorem parse_table_line_caught (py : Runtime) (line : Str)
    (hline : ∀ c ∈ line.head?, isspace c = false) :
    (∃ rule, parse_table_line py line = some rule ∧ Caught py rule) ↔ Flagged py line := by
  simp only [parse_table_line, findall_bracketed]
  by_cases hnone : bracketed line = []
  · simp [Flagged, hnone]
  · rw [if_neg (by simpa using hnone)]
    have hlast : (bracketed line).getLast? =
        some ((bracketed line).getD ((bracketed line).length - 1) []) := by
      rw [List.getLast?_eq_getElem?, List.getD_eq_getElem?_getD]
      have hlen := List.length_pos_iff.mpr hnone
      rw [List.getElem?_eq_getElem (by omega)]
      rfl
    simp only [Option.some.injEq, exists_eq_left', Caught]
    rw [resource_of_line line hline _ rfl, Flagged, hlast]
    simp only [Option.mem_def, Option.some.injEq, exists_eq_left', words_at]

/-! ## The verdict on a table -/

/-- Blank lines aside, the lines of a text are what stands between its line
boundaries. -/
theorem exists_line {P : Str → Prop} (hnil : ¬ P []) (cr : Bool) (acc s : Str)
    (hacc : ∀ c ∈ acc, isLineBreak c = false) (hcr : cr = true → acc = []) :
    (∃ line ∈ linesFrom cr acc s, P line) ↔
      ∃ piece ∈ (acc.reverse ++ s).splitOnP isLineBreak, P piece := by
  induction s generalizing cr acc with
  | nil =>
    rw [List.append_nil, List.splitOnP_eq_singleton (by simpa using hacc), linesFrom]
    cases acc with
    | nil => simpa using hnil
    | cons c acc => simp
  | cons c s ih =>
    have hpiece : isLineBreak c = true → ((∃ piece ∈ (acc.reverse ++ c :: s).splitOnP isLineBreak,
        P piece) ↔ P acc.reverse ∨ ∃ piece ∈ s.splitOnP isLineBreak, P piece) := by
      intro hc
      rw [List.splitOnP_append_cons_of_forall_mem (by simpa using hacc) c hc]
      simp
    rw [linesFrom]
    split
    · next hboth =>
      obtain ⟨hcr', hc⟩ := by simpa using hboth
      obtain rfl := hcr hcr'
      rw [hpiece (by rw [hc]; decide), ih false [] (by simp) (by simp)]
      simp [hnil]
    · split
      · next hc =>
        rw [hpiece hc]
        simp only [List.exists_mem_cons_iff]
        rw [ih _ [] (by simp) (by simp)]
        rfl
      · next hc =>
        have hacc' : ∀ d ∈ c :: acc, isLineBreak d = false :=
          List.forall_mem_cons.mpr ⟨by simpa using hc, hacc⟩
        rw [ih false (c :: acc) hacc' (by simp)]
        simp

theorem not_flagged_blank (py : Runtime) : ¬ Flagged py [] := by
  rintro ⟨_, verbs, hverbs, _⟩
  cases hverbs

theorem table_caught (py : Runtime) (raw : Str) :
    (∃ rule ∈ parse_table_output py raw, Caught py rule) ↔
      ∃ line ∈ data_lines py (splitlines (strip raw)), Flagged py (strip line) := by
  simp only [parse_table_output, List.mem_filterMap, List.mem_filter, List.mem_map]
  constructor
  · rintro ⟨rule, ⟨_, ⟨⟨line, hline, rfl⟩, _⟩, hrule⟩, hcaught⟩
    exact ⟨line, hline,
      (parse_table_line_caught py _ (strip_head line)).mp ⟨rule, hrule, hcaught⟩⟩
  · rintro ⟨line, hline, hflagged⟩
    obtain ⟨rule, hrule, hcaught⟩ :=
      (parse_table_line_caught py _ (strip_head line)).mpr hflagged
    have hne : strip line ≠ [] := by
      intro hblank
      rw [hblank] at hflagged
      exact not_flagged_blank py hflagged
    exact ⟨rule, ⟨strip line, ⟨⟨line, hline, rfl⟩, by simpa using hne⟩, hrule⟩, hcaught⟩

end AigentSquad.RbacParsing
