import Mathlib.Data.List.TakeWhile
import AigentSquad.JsonLayout
import AigentSquad.Truncation

/-!
# Item counts of compact and indented JSON

`count_items` reads both layouts of a value alike, so that the count differs only
where none is read and the lines are counted instead.
-/

set_option autoImplicit false

namespace AigentSquad.LayoutCounts
open AigentSquad.PyText AigentSquad.PyJson AigentSquad.Truncation

/-- `indent=None`, with separators of spaces at most. -/
structure Compact (l : Layout) : Prop where
  unindented : l.indent = none
  items : ∀ c ∈ l.item_space, c = ' '
  keys : ∀ c ∈ l.key_space, c = ' '

/-- Any `indent`. -/
def Indented (l : Layout) : Prop := ∃ unit, l.indent = some unit

def isCollection : Json → Prop
  | .arr _ => True
  | .obj _ => True
  | _ => False

/-! ## Lines -/

/-- The lines of a text that are not blank, the first one counted already if it
is `begun`. -/
def inked : Bool → Str → Nat
  | _, [] => 0
  | begun, c :: s =>
    if isLineBreak c then inked false s
    else if isspace c then inked begun s
    else (if begun then 0 else 1) + inked true s

def hasInk (line : Str) : Bool := line.any (fun c => !isspace c)

theorem strip_eq_nil_iff (s : Str) : strip s = [] ↔ ∀ c ∈ s, isspace c = true := by
  constructor
  · intro h
    have hall : ∀ c ∈ lstrip s, isspace c = true := by
      have hdrop := List.reverse_eq_nil_iff.mp h
      simpa using List.dropWhile_eq_nil_iff.mp hdrop
    have hnil : lstrip s = [] := by
      cases hs : lstrip s with
      | nil => rfl
      | cons c t =>
        have hhead := lstrip_head s c (by rw [hs]; rfl)
        rw [hall c (by rw [hs]; exact List.mem_cons_self)] at hhead
        cases hhead
    exact List.dropWhile_eq_nil_iff.mp hnil
  · intro h
    have hnil : lstrip s = [] := List.dropWhile_eq_nil_iff.mpr h
    rw [strip, hnil]
    rfl

theorem strip_isEmpty (line : Str) : (!(strip line).isEmpty) = hasInk line := by
  rw [Bool.eq_iff_iff]
  simp only [Bool.not_eq_true', List.isEmpty_eq_false_iff, ne_eq, strip_eq_nil_iff, hasInk,
    List.any_eq_true]
  simp

theorem hasInk_reverse (line : Str) : hasInk line.reverse = hasInk line := by
  simp [hasInk]

/-- The lines that the line read so far and the rest of the text make. -/
theorem lines_inked (cr : Bool) (acc s : Str) (h : cr = true → acc = []) :
    ((linesFrom cr acc s).filter hasInk).length =
      (if hasInk acc then 1 else 0) + inked (hasInk acc) s := by
  induction s generalizing cr acc with
  | nil =>
    rw [linesFrom, inked]
    cases acc with
    | nil => rfl
    | cons c acc =>
      rw [List.isEmpty_cons, if_neg (by simp), List.filter_cons, hasInk_reverse]
      split
      · rfl
      · rfl
  | cons c s ih =>
    rw [linesFrom, inked]
    split
    · next hcr =>
      simp only [Bool.and_eq_true, beq_iff_eq] at hcr
      obtain ⟨hcr, rfl⟩ := hcr
      rw [h hcr, ih false [] (by simp)]
      rfl
    · split
      · rw [List.filter_cons, hasInk_reverse]
        have hnext := ih (c == '\r') [] (by simp)
        have hnone : hasInk [] = false := rfl
        rw [hnone] at hnext
        split
        · rw [List.length_cons, hnext]
          simp only [Bool.false_eq_true, if_false]
          omega
        · rw [hnext]
          rfl
      · rw [ih false (c :: acc) (by simp)]
        have hcons : hasInk (c :: acc) = (!isspace c || hasInk acc) := rfl
        rw [hcons]
        cases isspace c with
        | true => simp
        | false =>
          cases hasInk acc with
          | true => simp
          | false => simp

theorem non_empty_lines_inked (s : Str) : (non_empty_lines s).length = inked false s := by
  have hlines := lines_inked false [] s (by simp)
  have hnone : hasInk [] = false := rfl
  rw [hnone, if_neg (by simp), Nat.zero_add] at hlines
  rw [non_empty_lines, splitlines, ← hlines]
  exact congrArg (fun p => ((linesFrom false [] s).filter p).length) (funext strip_isEmpty)

/-! ## From compact to indented -/

/-- The second text has other whitespace where the first has spaces or nothing. -/
inductive Looser : Str → Str → Prop
  | nil : Looser [] []
  | keep (c : Char) {s t : Str} (h : Looser s t) : Looser (c :: s) (c :: t)
  | gap (g g' : Str) {s t : Str} (hg : ∀ c ∈ g, c = ' ') (hg' : ∀ c ∈ g', isspace c = true)
      (h : Looser s t) : Looser (g ++ s) (g' ++ t)

theorem Looser.refl (s : Str) : Looser s s := by
  induction s with
  | nil => exact .nil
  | cons c s ih => exact .keep c ih

theorem Looser.append {s t s' t' : Str} (h : Looser s t) (h' : Looser s' t') :
    Looser (s ++ s') (t ++ t') := by
  induction h with
  | nil => exact h'
  | keep c _ ih => exact .keep c ih
  | gap g g' hg hg' _ ih =>
    rw [List.append_assoc, List.append_assoc]
    exact .gap g g' hg hg' ih

theorem inked_spaces (begun : Bool) (g s : Str) (hg : ∀ c ∈ g, c = ' ') :
    inked begun (g ++ s) = inked begun s := by
  induction g with
  | nil => rfl
  | cons c g ih =>
    rw [hg c List.mem_cons_self, List.cons_append, inked, if_neg (by decide), if_pos (by decide)]
    exact ih (fun d hd => hg d (List.mem_cons_of_mem _ hd))

theorem inked_blank (begun : Bool) (g s : Str) (hg : ∀ c ∈ g, isspace c = true) :
    inked begun (g ++ s) = inked begun s ∨ inked begun (g ++ s) = inked false s := by
  induction g generalizing begun with
  | nil => exact .inl rfl
  | cons c g ih =>
    have hrest := fun d hd => hg d (List.mem_cons_of_mem _ hd)
    rw [List.cons_append, inked]
    by_cases hc : isLineBreak c = true
    · rw [if_pos hc]
      rcases ih false hrest with h | h
      · exact .inr h
      · exact .inr h
    · rw [if_neg hc, if_pos (hg c List.mem_cons_self)]
      exact ih begun hrest

theorem inked_begun (s : Str) : inked true s ≤ inked false s := by
  induction s with
  | nil => exact le_rfl
  | cons c s ih =>
    rw [inked, inked]
    split
    · exact le_rfl
    · split
      · exact ih
      · simp

/-- Loosening a text begins no fewer lines. -/
theorem Looser.inked_le {s t : Str} (h : Looser s t) (begun : Bool) :
    inked begun s ≤ inked begun t := by
  induction h generalizing begun with
  | nil => exact le_rfl
  | keep c _ ih =>
    rw [inked, inked]
    split
    · exact ih false
    · split
      · exact ih begun
      · exact Nat.add_le_add_left (ih true) _
  | @gap g g' s t hg hg' _ ih =>
    rw [inked_spaces begun g s hg]
    rcases inked_blank begun g' t hg' with h | h
    · rw [h]
      exact ih begun
    · rw [h]
      cases begun with
      | true => exact (ih true).trans (inked_begun t)
      | false => exact ih false

theorem blank_space (c : Char) (h : isBlank c = true) : isspace c = true := by
  simp only [isBlank, List.mem_cons, List.not_mem_nil, or_false, decide_eq_true_eq] at h
  rcases h with rfl | rfl | rfl | rfl <;> decide

theorem Looser.fill {s t : Str} (g : Str) (hg : ∀ c ∈ g, isBlank c = true) (h : Looser s t) :
    Looser s (g ++ t) :=
  .gap [] g (List.forall_mem_nil _) (fun c hc => blank_space c (hg c hc)) h

theorem compact_newline {c : Layout} (hc : Compact c) (level : Nat) : c.newline level = [] := by
  rw [Layout.newline, hc.unindented]

section Layouts
variable (c i : Layout) (hc : Compact c)
include hc

/-- Joined parts loosen with the parts. -/
theorem looser_join (level : Nat) {ps qs : List Str} (h : List.Forall₂ Looser ps qs) :
    Looser (join (c.separator level) ps) (join (i.separator level) qs) := by
  induction h with
  | nil => exact .nil
  | @cons p q ps qs hpq hrest ih =>
    cases hrest with
    | nil => exact hpq
    | cons h hrest =>
      rw [join_cons_cons, join_cons_cons, List.append_assoc, List.append_assoc]
      refine hpq.append (.keep ',' ?_)
      rw [compact_newline hc, List.append_nil]
      exact .gap _ _ hc.items (fun d hd => blank_space d (item_gap_blank i level d hd)) ih

/-- What stands behind the whitespace that follows the opening bracket. -/
theorem looser_inside (level : Nat) (closing : Char) {ps qs : List Str}
    (h : List.Forall₂ Looser ps qs) :
    Looser (join (c.separator (level + 1)) ps ++ [closing])
      (join (i.separator (level + 1)) qs ++ (i.newline level ++ [closing])) :=
  (looser_join c i hc (level + 1) h).append (.fill _ (newline_blank i level) (.refl _))

theorem looser_enclose (level : Nat) (opening closing : Char) {ps qs : List Str}
    (h : List.Forall₂ Looser ps qs) :
    Looser (c.enclose level opening closing ps) (i.enclose level opening closing qs) := by
  have hinside := looser_inside c i hc level closing h
  cases h with
  | nil => exact .refl _
  | cons hpq hrest =>
    simp only [Layout.enclose, List.isEmpty_cons, Bool.false_eq_true, if_false,
      compact_newline hc, List.nil_append]
    exact .keep opening (.fill _ (newline_blank i (level + 1)) hinside)

end Layouts

mutual

/-- Indenting a compact text only loosens it. -/
theorem looser_render (c i : Layout) (hc : Compact c) (ea : Bool) : (v : Json) → ∀ level : Nat,
    Looser (render ea c level v) (render ea i level v)
  | .null, _ => .refl _
  | .bool true, _ => .refl _
  | .bool false, _ => .refl _
  | .int _, _ => .refl _
  | .float _, _ => .refl _
  | .str _, _ => .refl _
  | .arr items, level => by
    rw [render, render]
    exact looser_enclose c i hc level '[' ']' (looser_items c i hc ea items (level + 1))
  | .obj pairs, level => by
    rw [render, render]
    exact looser_enclose c i hc level '\x7b' '\x7d' (looser_pairs c i hc ea pairs (level + 1))

theorem looser_items (c i : Layout) (hc : Compact c) (ea : Bool) : (items : List Json) →
    ∀ level : Nat,
    List.Forall₂ Looser (renderItems ea c level items) (renderItems ea i level items)
  | [], _ => .nil
  | x :: xs, level => .cons (looser_render c i hc ea x level) (looser_items c i hc ea xs level)

theorem looser_pairs (c i : Layout) (hc : Compact c) (ea : Bool) :
    (pairs : List (Str × Json)) → ∀ level : Nat,
    List.Forall₂ Looser (renderPairs ea c level pairs) (renderPairs ea i level pairs)
  | [], _ => .nil
  | (k, x) :: kvs, level => by
    refine .cons ((Looser.refl _).append (.keep ':' ?_)) (looser_pairs c i hc ea kvs level)
    exact .gap _ _ hc.keys (fun d hd => blank_space d (key_gap_blank i d hd))
      (looser_render c i hc ea x level)

end

theorem inked_begins (c : Char) (s : Str) (h : isspace c = false) :
    inked false (c :: s) = 1 + inked true (c :: s) := by
  rw [inked, inked, not_break_of_not_space c h, h]
  simp

/-- A newline leaves no line begun. -/
theorem inked_newline (l : Layout) (hl : Indented l) (level : Nat) (begun : Bool) (s : Str) :
    inked begun (l.newline level ++ s) = inked false s := by
  obtain ⟨unit, hunit⟩ := hl
  have hblank : ∀ c ∈ (List.replicate level unit).flatten, isspace c = true := by
    intro c hc
    apply blank_space c (newline_blank l level c _)
    rw [Layout.newline, hunit]
    exact List.mem_cons_of_mem _ hc
  have hnewline : inked begun (l.newline level ++ s) =
      inked false ((List.replicate level unit).flatten ++ s) := by
    rw [Layout.newline, hunit]
    rfl
  rw [hnewline]
  rcases inked_blank false _ s hblank with h | h
  · exact h
  · exact h

/-- The indented text of an object that is not empty has more lines. -/
theorem more_lines (c i : Layout) (hc : Compact c) (hi : Indented i) (ea : Bool) (k : Str)
    (x : Json) (kvs : List (Str × Json)) :
    inked false (render ea c 0 (.obj ((k, x) :: kvs))) <
      inked false (render ea i 0 (.obj ((k, x) :: kvs))) := by
  have hinside := (looser_inside c i hc 0 '\x7d'
    (looser_pairs c i hc ea ((k, x) :: kvs) 1)).inked_le true
  rw [Nat.zero_add] at hinside
  have hbrace : ∀ s : Str, inked false ('\x7b' :: s) = 1 + inked true s := fun s => rfl
  have hcompact : render ea c 0 (.obj ((k, x) :: kvs)) =
      '\x7b' :: (join (c.separator 1) (renderPairs ea c 1 ((k, x) :: kvs)) ++ ['\x7d']) := by
    simp [render, renderPairs, Layout.enclose, compact_newline hc]
  have hindented : render ea i 0 (.obj ((k, x) :: kvs)) =
      '\x7b' :: (i.newline 1 ++ (join (i.separator 1) (renderPairs ea i 1 ((k, x) :: kvs)) ++
        (i.newline 0 ++ ['\x7d']))) := by
    simp [render, renderPairs, Layout.enclose]
  have hfirst : inked false (join (i.separator 1) (renderPairs ea i 1 ((k, x) :: kvs)) ++
      (i.newline 0 ++ ['\x7d'])) = 1 + inked true (join (i.separator 1)
        (renderPairs ea i 1 ((k, x) :: kvs)) ++ (i.newline 0 ++ ['\x7d'])) := by
    obtain ⟨u, hquote⟩ := pairs_quote ea i 1 (i.separator 1) k x kvs
    rw [hquote, List.append_assoc]
    exact inked_begins '"' _ (by decide)
  rw [hcompact, hindented, hbrace, hbrace, inked_newline i hi, hfirst]
  omega

/-! ## What is counted -/

theorem enclosed_strip (l : Layout) (level : Nat) (opening closing : Char) (parts : List Str)
    (hopening : isspace opening = false) (hclosing : isspace closing = false) :
    strip (l.enclose level opening closing parts) = l.enclose level opening closing parts := by
  rw [strip_eq_self_iff]
  cases parts with
  | nil =>
    constructor
    · simpa [Layout.enclose] using hopening
    · simpa [Layout.enclose] using hclosing
  | cons x xs =>
    have hlast : (l.enclose level opening closing (x :: xs)).getLast? = some closing := by
      simp [Layout.enclose, List.getLast?_cons, List.getLast?_append]
    constructor
    · simpa [Layout.enclose] using hopening
    · rw [hlast]
      simpa using hclosing

theorem enclose_front (l : Layout) (level : Nat) (opening closing : Char) (parts : List Str) :
    ∃ rest, l.enclose level opening closing parts = opening :: rest := by
  cases parts with
  | nil => exact ⟨_, rfl⟩
  | cons x xs => exact ⟨_, rfl⟩

def listAt (pairs : List (Str × Json)) (k : Str) : Option (List Json) :=
  match Json.get pairs k with
  | some (.arr items) => some items
  | _ => none

/-- The first well-known key with a list has one that is not empty, or no
well-known key has a list and some key has one that is not empty. -/
def Counted (pairs : List (Str × Json)) : Prop :=
  (∃ before key after items, COLLECTION_KEYS = before ++ key :: after ∧
    (∀ k ∈ before, listAt pairs k = none) ∧ listAt pairs key = some items ∧ items ≠ []) ∨
  ((∀ k ∈ COLLECTION_KEYS, listAt pairs k = none) ∧
    ∃ kv ∈ pairs, ∃ items, kv.2 = .arr items ∧ items ≠ [])

def LayoutFree : Json → Prop
  | .obj pairs => pairs = [] ∨ Counted pairs
  | _ => True

theorem listLength_eq (pairs : List (Str × Json)) (k : Str) :
    (Json.get pairs k).bind listLength = (listAt pairs k).map List.length := by
  unfold listAt
  cases Json.get pairs k with
  | none => rfl
  | some v => cases v <;> rfl

/-- Some value so far or later is a list that is not empty. -/
theorem largest_positive (vs : List Json) (best : Option Nat) :
    (∃ n, vs.foldl largest best = some n ∧ 0 < n) ↔
      (∃ n, best = some n ∧ 0 < n) ∨ ∃ v ∈ vs, ∃ n, listLength v = some n ∧ 0 < n := by
  induction vs generalizing best with
  | nil => simp
  | cons v vs ih =>
    have hstep : (∃ n, largest best v = some n ∧ 0 < n) ↔
        (∃ n, best = some n ∧ 0 < n) ∨ ∃ n, listLength v = some n ∧ 0 < n := by
      unfold largest
      cases listLength v with
      | none => simp
      | some m =>
        cases best with
        | none => simp
        | some b =>
          by_cases hm : b < m
          · simp [hm]
            omega
          · simp [hm]
            omega
    rw [List.foldl_cons, ih, hstep, List.exists_mem_cons_iff, or_assoc]

theorem filter_isSome (o : Option Nat) :
    (o.filter (fun n => 0 < n)).isSome = true ↔ ∃ n, o = some n ∧ 0 < n := by
  cases o with
  | none => simp
  | some n => simp [Option.filter]

theorem listLength_some (v : Json) (n : Nat) :
    listLength v = some n ↔ ∃ items, v = .arr items ∧ items.length = n := by
  cases v with
  | arr items => simp [listLength]
  | _ => simp [listLength]

theorem listed_none (pairs : List (Str × Json)) (keys : List Str) :
    (∀ k ∈ keys, (listAt pairs k).map List.length = none) ↔ ∀ k ∈ keys, listAt pairs k = none := by
  simp only [Option.map_eq_none_iff]

theorem collection_counted (pairs : List (Str × Json)) :
    ((collection_count pairs).filter (fun n => 0 < n)).isSome = true ↔ Counted pairs := by
  rw [filter_isSome, collection_count]
  simp only [listLength_eq]
  cases hfirst : COLLECTION_KEYS.findSome? (fun k => (listAt pairs k).map List.length) with
  | some n =>
    constructor
    · rintro ⟨m, hm, hpos⟩
      cases hm
      obtain ⟨before, key, after, hkeys, hkey, hbefore⟩ := List.findSome?_eq_some_iff.mp hfirst
      obtain ⟨items, hitems, hlength⟩ := Option.map_eq_some_iff.mp hkey
      have hne : items ≠ [] := by
        rintro rfl
        exact absurd hlength (Nat.ne_of_lt hpos)
      exact .inl ⟨before, key, after, items, hkeys, (listed_none pairs before).mp hbefore, hitems,
        hne⟩
    · rintro (⟨before, key, after, items, hkeys, hbefore, hitems, hne⟩ | ⟨hnone, -⟩)
      · have hfound := List.findSome?_eq_some_iff.mpr ⟨before, key, after, hkeys,
          congrArg (Option.map List.length) hitems, (listed_none pairs before).mpr hbefore⟩
        refine ⟨n, rfl, ?_⟩
        rw [hfirst, Option.some.injEq] at hfound
        rw [hfound]
        exact List.length_pos_iff.mpr hne
      · rw [List.findSome?_eq_none_iff.mpr ((listed_none pairs _).mpr hnone)] at hfirst
        cases hfirst
  | none =>
    have hnone := (listed_none pairs _).mp (List.findSome?_eq_none_iff.mp hfirst)
    rw [largest_positive]
    constructor
    · rintro (⟨n, hn, -⟩ | ⟨v, hv, n, hlength, hpos⟩)
      · cases hn
      · obtain ⟨kv, hkv, rfl⟩ := List.mem_map.mp hv
        obtain ⟨items, hitems, rfl⟩ := (listLength_some _ _).mp hlength
        exact .inr ⟨hnone, kv, hkv, items, hitems, List.length_pos_iff.mp hpos⟩
    · rintro (⟨before, key, after, items, hkeys, -, hitems, -⟩ | ⟨-, kv, hkv, items, hitems, hne⟩)
      · have hmem : key ∈ COLLECTION_KEYS := by
          rw [hkeys]
          simp
        rw [hnone key hmem] at hitems
        cases hitems
      · exact .inr ⟨kv.2, List.mem_map_of_mem hkv, items.length,
          (listLength_some _ _).mpr ⟨items, hitems, rfl⟩, List.length_pos_iff.mpr hne⟩

theorem count_array (py : Runtime) (ea : Bool) (l : Layout) (items : List Json)
    (hs : Sound py (.arr items)) :
    count_items py (render ea l 0 (.arr items)) = some items.length := by
  have hstrip := enclosed_strip l 0 '[' ']' (renderItems ea l 1 items) (by decide) (by decide)
  obtain ⟨rest, hopen⟩ := enclose_front l 0 '[' ']' (renderItems ea l 1 items)
  have hloads := loads_render py ea l _ hs
  rw [render, Nat.zero_add, hopen] at hloads ⊢
  rw [hopen] at hstrip
  have harray : array_count py ('[' :: rest) = some items.length := by
    unfold array_count
    rw [if_pos (by rfl), hloads]
    rfl
  rw [count_items, hstrip, List.isEmpty_cons, if_neg (by simp), harray]
  rfl

theorem count_object (py : Runtime) (ea : Bool) (l : Layout) (pairs : List (Str × Json))
    (hs : Sound py (.obj pairs)) :
    count_items py (render ea l 0 (.obj pairs)) =
      ((collection_count pairs).filter (fun n => 0 < n)).or
        (if 1 < inked false (render ea l 0 (.obj pairs)) then
          some (inked false (render ea l 0 (.obj pairs))) else none) := by
  have hstrip := enclosed_strip l 0 '\x7b' '\x7d' (renderPairs ea l 1 pairs) (by decide) (by decide)
  obtain ⟨rest, hopen⟩ := enclose_front l 0 '\x7b' '\x7d' (renderPairs ea l 1 pairs)
  have hloads := loads_render py ea l _ hs
  rw [render, Nat.zero_add, hopen] at hloads ⊢
  rw [hopen] at hstrip
  have harray : array_count py ('\x7b' :: rest) = none := by
    unfold array_count
    rw [if_neg (by simp [startswith])]
  have hobject : object_count py ('\x7b' :: rest) =
      (collection_count pairs).filter (fun n => 0 < n) := by
    unfold object_count
    rw [if_pos (by rfl), hloads]
  rw [count_items, hstrip, List.isEmpty_cons, if_neg (by simp), harray, hobject,
    row_count_marked _ _ (by decide) (by decide), non_empty_lines_inked]
  rfl

/-- More than one line is a count, and more lines are another one. -/
theorem line_count_differs (m n : Nat) (hm : 0 < m) (h : m < n) :
    ¬ (if 1 < m then some m else none) = if 1 < n then some n else none := by
  rw [if_pos (by omega : 1 < n)]
  split
  · rw [Option.some.injEq]
    omega
  · simp

/-- `count_items` gives the same for the compact and the indented text of a
value exactly when it is an array, empty or counted by a list. -/
theorem layout_free_iff (py : Runtime) (ea : Bool) (c i : Layout) (hc : Compact c)
    (hi : Indented i) (v : Json) (hv : isCollection v) (hs : Sound py v) :
    count_items py (render ea c 0 v) = count_items py (render ea i 0 v) ↔ LayoutFree v := by
  cases v with
  | arr items =>
    apply iff_of_true _ trivial
    rw [count_array py ea c items hs, count_array py ea i items hs]
  | obj pairs =>
    rw [count_object py ea c pairs hs, count_object py ea i pairs hs]
    cases pairs with
    | nil => exact iff_of_true rfl (.inl rfl)
    | cons kv kvs =>
      obtain ⟨k, x⟩ := kv
      have hmore := more_lines c i hc hi ea k x kvs
      have hbrace : 0 < inked false (render ea c 0 (.obj ((k, x) :: kvs))) := by
        obtain ⟨rest, hrest⟩ := enclose_front c 0 '\x7b' '\x7d' (renderPairs ea c 1 ((k, x) :: kvs))
        rw [render, Nat.zero_add, hrest, inked_begins '\x7b' rest (by decide)]
        omega
      have hfree : LayoutFree (.obj ((k, x) :: kvs)) ↔ Counted ((k, x) :: kvs) := by
        simp [LayoutFree]
      rw [hfree, ← collection_counted]
      cases (collection_count ((k, x) :: kvs)).filter (fun n => 0 < n) with
      | some n => exact iff_of_true rfl rfl
      | none => exact iff_of_false (line_count_differs _ _ hbrace hmore) (by simp)
  | _ => exact absurd hv id

/-- `indent=2` -/
def two_spaces : Layout := ⟨some "  ".toList, [], " ".toList, by decide⟩

theorem plain_compact : Compact .plain where
  unindented := rfl
  items := by decide
  keys := by decide

theorem two_spaces_indented : Indented two_spaces := ⟨_, rfl⟩

def two_items : Json := .obj [("items".toList, .arr [.int 1, .int 2])]

theorem two_items_sound : Sound asciiRuntime two_items := by
  refine ⟨by simp, ⟨?_, ?_, trivial⟩, trivial⟩
  · unfold Sound DigitLimit
    decide
  · unfold Sound DigitLimit
    decide

theorem two_items_free :
    Sound asciiRuntime two_items ∧
      count_items asciiRuntime (render true .plain 0 two_items) =
        count_items asciiRuntime (render true two_spaces 0 two_items) := by
  refine ⟨two_items_sound, (layout_free_iff asciiRuntime true .plain two_spaces plain_compact
    two_spaces_indented two_items trivial two_items_sound).mpr (.inr (.inl ?_))⟩
  exact ⟨[], _, _, [.int 1, .int 2], rfl, by simp, rfl, by simp⟩

def no_results : Json := .obj [("results".toList, .arr [])]

set_option maxRecDepth 100000 in
/-- An empty list of results is three items when it is indented. -/
theorem no_results_counted :
    Sound asciiRuntime no_results ∧
      count_items asciiRuntime (render true two_spaces 0 no_results) = some 3 ∧
      count_items asciiRuntime (render true .plain 0 no_results) ≠
        count_items asciiRuntime (render true two_spaces 0 no_results) := by
  have hcompact : count_items asciiRuntime (render true .plain 0 no_results) = none := by
    rfl
  have hindented : count_items asciiRuntime (render true two_spaces 0 no_results) = some 3 := by
    rfl
  refine ⟨⟨by simp, trivial, trivial⟩, hindented, ?_⟩
  rw [hcompact, hindented]
  simp

end AigentSquad.LayoutCounts
