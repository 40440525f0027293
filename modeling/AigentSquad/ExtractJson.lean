import AigentSquad.Delimiter
import AigentSquad.KeptAnswers
import Mathlib.Data.List.TakeWhile

/-!
# Cutting JSON out of an answer

`_extract_json` takes what stands between the first two fences, if there are
two, and from it the part from the first opening brace to the last closing one.
An object that is quoted with fences of its own is lost.
-/

set_option autoImplicit false

namespace AigentSquad.ExtractJson
open AigentSquad.PyText AigentSquad.PyJson AigentSquad.Delimiter AigentSquad.EvidenceExchange
open AigentSquad.KeptAnswers

def fence : Str := "```".toList

/-- `(?:json)?\s*` -/
def after_language (s : Str) : Str :=
  lstrip (if startswith s "json".toList then s.drop 4 else s)

/-- The group of the search. What may stand before the group holds no backtick, so the
search never has a second way to match. -/
def fenced_block (text : Str) : Option Str :=
  (cut fence text).bind (fun p => (cut fence (after_language p.2)).map Prod.fst)

/-- From the first opening brace to the last closing one. -/
def braces (text : Str) : Str :=
  match find '\x7b' text, rfind '\x7d' text with
  | some start, some stop => if start < stop then slice text start stop else text
  | _, _ => text

def extract_json (response : Str) : Str :=
  let text := strip response
  braces (if isIn fence text then ((fenced_block text).map strip).getD text else text)

/-! ### The braces -/

theorem braces_within (text : Str) : braces text <:+: text := by
  unfold braces
  split
  · split
    · exact (List.drop_suffix _ _).isInfix.trans (List.take_prefix _ _).isInfix
    · exact List.infix_refl text
  · exact List.infix_refl text

theorem find_first (c : Char) (a s : Str) (h : c ∉ a) : find c (a ++ c :: s) = some a.length := by
  rw [find, List.findIdx?_append, List.findIdx?_eq_none_iff.mpr]
  · simp [List.findIdx?_cons]
  · intro d hd
    exact decide_eq_false (fun heq => h (heq ▸ hd))

theorem rfind_last (c : Char) (s b : Str) (h : c ∉ b) :
    rfind c (s ++ c :: b) = some s.length := by
  have hfirst := find_first c b.reverse s.reverse (by simpa using h)
  have hreverse : (s ++ c :: b).reverse = b.reverse ++ c :: s.reverse := by simp
  unfold find at hfirst
  rw [rfind, hreverse, hfirst]
  simp only [Option.map_some, List.length_append, List.length_cons, List.length_reverse,
    Option.some.injEq]
  omega

/-- From the brace that opens the text to the one that closes it. -/
def Braced (text : Str) : Prop := ∃ body, text = '\x7b' :: body ++ ['\x7d']

theorem braces_around (a text b : Str) (h : Braced text) (ha : '\x7b' ∉ a) (hb : '\x7d' ∉ b) :
    braces (a ++ text ++ b) = text := by
  obtain ⟨body, rfl⟩ := h
  have hfirst : find '\x7b' (a ++ ('\x7b' :: body ++ ['\x7d']) ++ b) = some a.length := by
    simpa using find_first '\x7b' a (body ++ ['\x7d'] ++ b) ha
  have hlast : rfind '\x7d' (a ++ ('\x7b' :: body ++ ['\x7d']) ++ b) =
      some (a ++ '\x7b' :: body).length := by
    simpa using rfind_last '\x7d' (a ++ '\x7b' :: body) b hb
  have hslice : slice (a ++ ('\x7b' :: body ++ ['\x7d']) ++ b) a.length
      (a ++ '\x7b' :: body).length = '\x7b' :: body ++ ['\x7d'] := by
    have hwhole : (a ++ '\x7b' :: body).length + 1 =
        (a ++ ('\x7b' :: body ++ ['\x7d'])).length := by
      simp only [List.length_append, List.length_cons, List.length_nil]
      omega
    rw [slice, hwhole, List.take_left, List.drop_left]
  rw [braces, hfirst, hlast]
  simp only [hslice]
  rw [if_pos (by simp)]

/-! ### The fences -/

theorem fence_ne_nil : fence ≠ [] := by decide

theorem mem_fence (c : Char) (h : c ∈ fence) : c = '\x60' :=
  List.eq_of_mem_replicate (show c ∈ List.replicate 3 '\x60' from h)

theorem blank_no_fence (w : Str) (h : ∀ c ∈ w, isspace c = true) : ∀ c ∈ w, c ∉ fence := by
  intro c hc hfence
  have hblank := h c hc
  rw [mem_fence c hfence] at hblank
  exact absurd hblank (by decide)

/-- Two fences, one after the other. -/
def TwoFences (text : Str) : Prop := ∃ a b c, text = a ++ fence ++ (b ++ fence ++ c)

theorem after_language_split (s : Str) :
    ∃ skipped, s = skipped ++ after_language s ∧ ∀ c ∈ skipped, c ∉ fence := by
  have hspace : ∀ t : Str, ∃ skipped, t = skipped ++ lstrip t ∧ ∀ c ∈ skipped, c ∉ fence := by
    intro t
    exact ⟨t.takeWhile isspace, List.takeWhile_append_dropWhile.symm,
      blank_no_fence _ (List.all_eq_true.mp List.all_takeWhile)⟩
  unfold after_language
  split
  · next hjson =>
    obtain ⟨rest, rfl⟩ := List.isPrefixOf_iff_prefix.mp hjson
    obtain ⟨skipped, hskip, hfree⟩ := hspace rest
    have hdrop : ("json".toList ++ rest).drop 4 = rest := rfl
    refine ⟨"json".toList ++ skipped, ?_, ?_⟩
    · rw [hdrop, List.append_assoc, ← hskip]
    · intro c hc
      rcases List.mem_append.mp hc with hc | hc
      · have hnone : ∀ d ∈ "json".toList, d ∉ fence := by decide
        exact hnone c hc
      · exact hfree c hc
  · exact hspace s

theorem infix_after_language (s : Str) : fence <:+: after_language s ↔ fence <:+: s := by
  obtain ⟨skipped, hskip, hfree⟩ := after_language_split s
  have hafter := infix_after_sep fence skipped (after_language s) fence_ne_nil hfree
  rw [← hskip] at hafter
  exact hafter.symm

/-- Whatever follows an occurrence follows the first one. -/
theorem suffix_of_cut {m s x y a z : Str} (hm : m ≠ []) (hcut : cut m s = some (x, y))
    (h : s = a ++ m ++ z) : z <:+ y := by
  obtain ⟨hsplit, hfirst⟩ := (cut_iff m s x y hm).mp hcut
  by_cases hle : z.length ≤ y.length
  · have hz : z <:+ s := h ▸ List.suffix_append _ _
    have hy : y <:+ s := hsplit ▸ List.suffix_append _ _
    exact List.suffix_of_suffix_length_le hz hy hle
  · have hlength : (a ++ m ++ z).length = (x ++ m ++ y).length := by rw [← h, hsplit]
    simp only [List.length_append] at hlength
    have ham : a ++ m <+: s := h ▸ List.prefix_append _ _
    have hxm : (x ++ m).dropLast <+: s :=
      (List.dropLast_prefix _).trans (hsplit ▸ List.prefix_append _ _)
    have hprefix : a ++ m <+: (x ++ m).dropLast := by
      refine List.prefix_of_prefix_length_le ham hxm ?_
      rw [List.length_dropLast, List.length_append, List.length_append]
      omega
    exact absurd ((List.suffix_append a m).isInfix.trans hprefix.isInfix) hfirst

theorem fenced_block_eq_none_iff (text : Str) : fenced_block text = none ↔ ¬ TwoFences text := by
  cases hcut : cut fence text with
  | none =>
    rw [fenced_block, hcut]
    refine iff_of_true rfl ?_
    rintro ⟨a, b, c, rfl⟩
    exact (cut_none_iff fence _ fence_ne_nil).mp hcut ⟨a, b ++ fence ++ c, rfl⟩
  | some p =>
    obtain ⟨x, y⟩ := p
    rw [fenced_block, hcut, Option.bind_some, Option.map_eq_none_iff, cut_none_iff _ _ fence_ne_nil,
      infix_after_language, not_iff_not]
    constructor
    · rintro ⟨b, c, hy⟩
      obtain ⟨hsplit, _⟩ := (cut_iff fence text x y fence_ne_nil).mp hcut
      exact ⟨x, b, c, by rw [hsplit, hy]⟩
    · rintro ⟨a, b, c, htext⟩
      have hsuffix := suffix_of_cut fence_ne_nil hcut htext
      exact (show fence <:+: b ++ fence ++ c from ⟨b, c, rfl⟩).trans hsuffix.isInfix

/-- The group stands behind the first fence. -/
theorem fenced_block_infix (text block : Str) (h : fenced_block text = some block) :
    ∃ x y, text = x ++ fence ++ y ∧ block <:+: y := by
  obtain ⟨⟨x, y⟩, hcut, hrest⟩ := Option.bind_eq_some_iff.mp h
  obtain ⟨⟨z, w⟩, hcut', rfl⟩ := Option.map_eq_some_iff.mp hrest
  obtain ⟨skipped, hskip, _⟩ := after_language_split y
  refine ⟨x, y, ((cut_iff fence text x y fence_ne_nil).mp hcut).1, ?_⟩
  have hsplit := ((cut_iff fence _ z w fence_ne_nil).mp hcut').1
  have hafter : after_language y <:+: y := ⟨skipped, [], by rw [List.append_nil, ← hskip]⟩
  refine List.IsInfix.trans ⟨[], fence ++ w, ?_⟩ hafter
  rw [List.nil_append, hsplit, List.append_assoc]

/-! ### The text around the object -/

theorem lstrip_append (a s : Str) (hs : ∀ c ∈ s.head?, isspace c = false) :
    lstrip (a ++ s) = lstrip a ++ s := by
  unfold lstrip
  induction a with
  | nil =>
    cases s with
    | nil => rfl
    | cons c s =>
      have hc : isspace c = false := hs c rfl
      simp [hc]
  | cons c a ih =>
    rw [List.cons_append, List.dropWhile_cons, List.dropWhile_cons]
    split
    · exact ih
    · rfl

theorem lstrip_blank (w : Str) (h : ∀ c ∈ w, isspace c = true) : lstrip w = [] :=
  List.dropWhile_eq_nil_iff.mpr h

theorem rstrip_blank (w : Str) (h : ∀ c ∈ w, isspace c = true) : rstrip w = [] := by
  rw [rstrip, List.dropWhile_eq_nil_iff.mpr (by simpa using h), List.reverse_nil]

theorem brace_kept : isspace '\x7b' = false ∧ isspace '\x7d' = false := by decide

theorem braced_head (text b : Str) (h : Braced text) :
    ∀ c ∈ (text ++ b).head?, isspace c = false := by
  obtain ⟨body, rfl⟩ := h
  intro c hc
  cases hc
  exact brace_kept.1

theorem braced_last (a text : Str) (h : Braced text) :
    a ++ text ≠ [] ∧ ∀ c ∈ (a ++ text).getLast?, isspace c = false := by
  obtain ⟨body, rfl⟩ := h
  refine ⟨by simp, fun c hc => ?_⟩
  rw [← List.append_assoc, List.getLast?_concat] at hc
  cases hc
  exact brace_kept.2

theorem strip_around (a text b : Str) (h : Braced text) :
    strip (a ++ text ++ b) = lstrip a ++ text ++ rstrip b := by
  obtain ⟨hne, hlast⟩ := braced_last (lstrip a) text h
  rw [strip, List.append_assoc, lstrip_append a _ (braced_head text b h), ← List.append_assoc,
    rstrip_append _ b hne hlast]

theorem lstrip_suffix (s : Str) : lstrip s <:+ s := List.dropWhile_suffix _

/-- An occurrence of the fence lies on one side of a brace. -/
theorem fence_around (a b : Str) :
    fence <:+: a ++ '\x7d' :: b ↔ fence <:+: a ∨ fence <:+: b :=
  infix_around_stop fence a b '\x7d' (by decide)

/-- Behind an object without fences the fences are those of the text that follows. -/
theorem twoFences_behind (a text b : Str) (ha : '\x60' ∉ a) (h : Braced text)
    (hfree : ¬ fence <:+: text) (htwo : TwoFences (a ++ text ++ b)) : TwoFences b := by
  obtain ⟨body, rfl⟩ := h
  have hbefore : ¬ fence <:+: a ++ ('\x7b' :: body ++ ['\x7d']) := by
    rwa [infix_after_sep fence a _ fence_ne_nil]
    intro c hc hfence
    exact ha (mem_fence c hfence ▸ hc)
  obtain ⟨x, y, z, hsplit⟩ := htwo
  rcases List.append_eq_append_iff.mp hsplit with ⟨w, hw, hb⟩ | ⟨w, hw, _⟩
  · have hinfix : fence <:+: (a ++ '\x7b' :: body) ++ '\x7d' :: w := by
      refine ⟨x, [], ?_⟩
      rw [List.append_nil, hw]
      simp
    rcases (fence_around _ w).mp hinfix with hin | ⟨u, v, hin⟩
    · refine absurd (hin.trans ⟨[], ['\x7d'], ?_⟩) hbefore
      simp
    · exact ⟨u, v ++ y, z, by rw [hb, ← hin]; simp⟩
  · exact absurd ⟨x, w, hw.symm⟩ hbefore

theorem twoFences_rstrip (b : Str) (h : TwoFences b) : TwoFences (rstrip b) := by
  obtain ⟨x, y, z, rfl⟩ := h
  have hlast : ∀ c ∈ (x ++ fence ++ (y ++ fence)).getLast?, isspace c = false := by
    intro c hc
    rw [show x ++ fence ++ (y ++ fence) = x ++ fence ++ (y ++ "``".toList) ++ ['\x60'] by
      simp [fence], List.getLast?_concat] at hc
    cases hc
    decide
  refine ⟨x, y, rstrip z, ?_⟩
  have hrstrip := rstrip_append (x ++ fence ++ (y ++ fence)) z (by simp [fence]) hlast
  simpa only [List.append_assoc] using hrstrip

/-- The object does not stand behind the first fence, which is its own or follows it. -/
theorem behind_fence_lost (a text b u v : Str) (ha : '\x7b' ∉ a ∧ '\x60' ∉ a) (h : Braced text)
    (hb : '\x7b' ∉ b) (hsplit : a ++ text ++ b = u ++ fence ++ v) : ¬ text <:+: v := by
  intro hinfix
  have hcount := congrArg (List.count '\x7b') hsplit
  have hle := hinfix.sublist.count_le '\x7b'
  simp only [List.count_append, List.count_eq_zero.mpr ha.1, List.count_eq_zero.mpr hb] at hcount
  have hu : '\x7b' ∉ u ++ fence := by
    rw [← List.count_eq_zero, List.count_append]
    omega
  obtain ⟨body, rfl⟩ := h
  rw [List.append_assoc] at hsplit
  rcases List.append_eq_append_iff.mp hsplit with ⟨w, hw, hv⟩ | ⟨w, hw, _⟩
  · cases w with
    | nil =>
      rw [List.append_nil] at hw
      exact ha.2 (hw ▸ List.mem_append_right u (by decide))
    | cons c w =>
      have hc : '\x7b' = c := by simpa using congrArg List.head? hv
      exact hu (hw ▸ List.mem_append_right a (hc ▸ List.mem_cons_self))
  · exact ha.2 (hw ▸ List.mem_append_left w (List.mem_append_right u (by decide)))

theorem strip_within (s : Str) : strip s <:+: s :=
  ( rstrip_prefix _).isInfix.trans (lstrip_suffix s).isInfix

/-! ### The three forms -/

/-- The fence is looked for only where there is one. -/
theorem extract_json_eq (response : Str) : extract_json response =
    braces (((fenced_block (strip response)).map strip).getD (strip response)) := by
  rw [extract_json]
  by_cases h : isIn fence (strip response) = true
  · rw [if_pos h]
  · have hnone : fenced_block (strip response) = none := by
      rw [fenced_block_eq_none_iff]
      rintro ⟨a, b, c, heq⟩
      exact h (decide_eq_true ⟨a, b ++ fence ++ c, heq.symm⟩)
    rw [if_neg h, hnone]
    rfl

section Forms
variable (a text b : Str) (ha : '\x7b' ∉ a ∧ '\x60' ∉ a) (htext : Braced text)
  (hb : '\x7b' ∉ b ∧ '\x7d' ∉ b)
include ha htext hb

/-- An object between a preamble and a trailing text. -/
theorem extract_around_iff (hfree : ¬ fence <:+: text) :
    extract_json (a ++ text ++ b) = text ↔ ¬ TwoFences b := by
  have hla : '\x7b' ∉ lstrip a ∧ '\x60' ∉ lstrip a :=
    ⟨fun h => ha.1 ((lstrip_suffix a).mem h), fun h => ha.2 ((lstrip_suffix a).mem h)⟩
  have hrb : '\x7b' ∉ rstrip b ∧ '\x7d' ∉ rstrip b :=
    ⟨fun h => hb.1 (( rstrip_prefix b).mem h), fun h => hb.2 (( rstrip_prefix b).mem h)⟩
  rw [extract_json_eq, strip_around a text b htext]
  cases hblock : fenced_block (lstrip a ++ text ++ rstrip b) with
  | none =>
    have hnone := (fenced_block_eq_none_iff _).mp hblock
    refine iff_of_true (braces_around _ text _ htext hla.1 hrb.2) (fun htwo => hnone ?_)
    obtain ⟨x, y, z, heq⟩ := twoFences_rstrip b htwo
    exact ⟨lstrip a ++ text ++ x, y, z, by rw [heq]; simp⟩
  | some block =>
    have htwo : TwoFences (lstrip a ++ text ++ rstrip b) := by
      by_contra hnot
      rw [(fenced_block_eq_none_iff _).mpr hnot] at hblock
      cases hblock
    obtain ⟨x, y, z, heq⟩ := twoFences_behind (lstrip a) text (rstrip b) hla.2 htext hfree htwo
    obtain ⟨rest, hrest⟩ := rstrip_prefix b
    refine iff_of_false (fun hresult => ?_) (fun hnot => hnot ⟨x, y, z ++ rest, ?_⟩)
    · obtain ⟨u, v, hsplit, hinfix⟩ := fenced_block_infix _ block hblock
      refine behind_fence_lost _ text _ u v hla htext hrb.1 hsplit ?_
      rw [← hresult]
      exact (braces_within _).trans ((strip_within block).trans hinfix)
    · rw [← hrest, heq]
      simp

end Forms

/-- What the block holds, from behind its language on. -/
theorem fenced_block_json (w inside : Str) (hw : ∀ c ∈ w, isspace c = true)
    (hhead : ∀ c ∈ inside.head?, isspace c = false) :
    fenced_block ("```json".toList ++ w ++ inside) = (cut fence inside).map Prod.fst := by
  have hwhole : "```json".toList ++ w ++ inside =
      [] ++ fence ++ ("json".toList ++ (w ++ inside)) := by
    simp [fence]
  have hcut : cut fence ([] ++ fence ++ ("json".toList ++ (w ++ inside))) =
      some ([], "json".toList ++ (w ++ inside)) :=
    (cut_iff fence _ _ _ fence_ne_nil).mpr ⟨rfl, firstAfter_nil fence fence_ne_nil⟩
  have hjson : startswith ("json".toList ++ (w ++ inside)) "json".toList = true :=
    List.isPrefixOf_iff_prefix.mpr (List.prefix_append _ _)
  have hdrop : ("json".toList ++ (w ++ inside)).drop 4 = w ++ inside := rfl
  have hlanguage : after_language ("json".toList ++ (w ++ inside)) = inside := by
    rw [after_language, if_pos hjson, hdrop, lstrip_append w inside hhead, lstrip_blank w hw,
      List.nil_append]
  rw [hwhole, fenced_block, hcut, Option.bind_some, hlanguage]

theorem strip_fenced (s : Str) :
    strip ("```json".toList ++ s ++ fence) = "```json".toList ++ s ++ fence := by
  rw [strip_eq_self_iff]
  refine ⟨fun c hc => ?_, fun c hc => ?_⟩
  · cases hc
    decide
  · rw [show fence = "``".toList ++ ['\x60'] by decide, ← List.append_assoc,
      List.getLast?_concat] at hc
    cases hc
    decide

section Fenced
variable {text w : Str} (htext : Braced text)
include htext

/-- An object without fences ends where the block does. -/
theorem cut_inside_free (hw : ∀ c ∈ w, isspace c = true) (hfree : ¬ fence <:+: text) :
    cut fence (text ++ w ++ fence) = some (text ++ w, []) := by
  refine (cut_iff fence _ _ _ fence_ne_nil).mpr ⟨by simp, ?_⟩
  obtain ⟨body, rfl⟩ := htext
  have hlast : ('\x7b' :: body ++ ['\x7d'] ++ w ++ fence).dropLast =
      '\x7b' :: body ++ '\x7d' :: (w ++ "``".toList) := by
    rw [show fence = "``".toList ++ ['\x60'] by decide, ← List.append_assoc,
      List.dropLast_concat]
    simp
  rw [FirstAfter, hlast, fence_around, not_or]
  constructor
  · exact fun h => hfree (h.trans (List.prefix_append _ _).isInfix)
  · rw [infix_after_sep fence w _ fence_ne_nil]
    · decide
    · exact blank_no_fence w hw

omit htext in
/-- An object with a fence is cut short at its own. -/
theorem cut_inside_short (hfence : fence <:+: text) :
    ∃ z rest, cut fence (text ++ w ++ fence) = some (z, rest) ∧ z.length < text.length := by
  obtain ⟨p, q, hpq⟩ := hfence
  have hbehind : text ++ w ++ fence = p ++ fence ++ (q ++ w ++ fence) := by simp [← hpq]
  cases hcut : cut fence (text ++ w ++ fence) with
  | none =>
    refine absurd ⟨p, q ++ w ++ fence, ?_⟩ ((cut_none_iff fence _ fence_ne_nil).mp hcut)
    exact hbehind.symm
  | some cuts =>
    obtain ⟨z, rest⟩ := cuts
    refine ⟨z, rest, rfl, ?_⟩
    have hsplit := ((cut_iff fence _ z rest fence_ne_nil).mp hcut).1
    have hsuffix := (suffix_of_cut fence_ne_nil hcut hbehind).length_le
    have hlength := congrArg List.length (hsplit.symm.trans hbehind)
    have hlong := congrArg List.length hpq
    have hthree : fence.length = 3 := rfl
    simp only [List.length_append] at hlength hsuffix hlong
    omega

/-- The object in a block of its own. -/
theorem extract_fenced_iff (w₁ : Str) (h₁ : ∀ c ∈ w₁, isspace c = true)
    (hw : ∀ c ∈ w, isspace c = true) :
    extract_json ("```json".toList ++ w₁ ++ text ++ w ++ fence) = text ↔ ¬ fence <:+: text := by
  have hhead : ∀ c ∈ (text ++ w ++ fence).head?, isspace c = false := by
    rw [List.append_assoc]
    exact braced_head text _ htext
  have hblock := fenced_block_json w₁ (text ++ w ++ fence) h₁ hhead
  have hstrip := strip_fenced (w₁ ++ text ++ w)
  simp only [← List.append_assoc] at hblock hstrip
  rw [extract_json_eq, hstrip, hblock]
  by_cases hfence : fence <:+: text
  · obtain ⟨z, rest, hcut, hshort⟩ := cut_inside_short (w := w) hfence
    refine iff_of_false (fun hresult => ?_) (fun hnot => hnot hfence)
    rw [hcut] at hresult
    have hlong : text.length ≤ z.length := by
      rw [← hresult]
      exact ((braces_within _).trans (strip_within z)).length_le
    omega
  · refine iff_of_true ?_ hfence
    have hplain := strip_around [] text w htext
    rw [rstrip_blank w hw, List.append_nil, List.nil_append] at hplain
    have hbraces := braces_around [] text [] htext (by simp) (by simp)
    rw [List.nil_append, List.append_nil] at hbraces
    rw [cut_inside_free htext hw hfence, Option.map_some, Option.map_some, Option.getD_some, hplain]
    exact hbraces

end Fenced

/-! ### The text of an object -/

theorem scanPairs_closed (py : Runtime) (n : ℕ) (acc : List (Str × Json)) (s : Str) (v : Json)
    (rest : Str) (h : scanPairs py n acc s = .ok (v, rest)) : '\x7d' :: rest <:+ s := by
  induction n generalizing acc s with
  | zero => cases h
  | succ n ih =>
    rw [scanPairs.eq_def] at h
    dsimp only at h
    split at h
    · next tail =>
      have htail : tail <:+ '"' :: tail := List.suffix_cons _ _
      split at h
      · cases h
      · next k rest' hkey =>
        have hkey := (scanString_suffix _ _ _ _ _ hkey).trans htail
        split at h
        · next afterColon hcolon =>
          have hcolon : afterColon <:+ '"' :: tail :=
            ((List.suffix_cons _ _).trans (hcolon ▸ skipWhitespace_suffix rest')).trans hkey
          split at h
          · cases h
          · next w rest'' hvalue =>
            have hvalue := (((scan_suffix py n).1 _ _ _ hvalue).trans
              (skipWhitespace_suffix afterColon)).trans hcolon
            split at h
            · next after hafter =>
              cases h
              exact (hafter ▸ skipWhitespace_suffix rest'').trans hvalue
            · next after hafter =>
              have hafter : after <:+ '"' :: tail :=
                ((List.suffix_cons _ _).trans (hafter ▸ skipWhitespace_suffix rest'')).trans hvalue
              exact ((ih _ _ h).trans (skipWhitespace_suffix after)).trans hafter
            · cases h
        · cases h
    · cases h

theorem scanNumber_not_object (py : Runtime) (s rest : Str) (pairs : List (Str × Json)) :
    scanNumber py s ≠ .ok (.obj pairs, rest) := by
  intro h
  unfold scanNumber at h
  extract_lets sign body whole afterWhole frac afterFrac exp tail at h
  split at h
  · cases h
  · split at h
    · split at h
      · cases h
      · cases h
    · cases h

theorem scanConstant_not_object (s rest : Str) (pairs : List (Str × Json)) :
    scanConstant s ≠ some (.obj pairs, rest) := by
  intro h
  obtain ⟨c, hc, hfound⟩ := List.exists_of_findSome?_eq_some h
  obtain ⟨_, _, heq⟩ := Option.map_eq_some_iff.mp hfound
  have hnone : ∀ c ∈ constants, c.2.isObject = false := by decide
  have hvalue := hnone c hc
  rw [(Prod.mk.inj heq).1] at hvalue
  cases hvalue

theorem scanOnce_object (py : Runtime) (n : ℕ) (s rest : Str) (pairs : List (Str × Json))
    (h : scanOnce py n s = .ok (.obj pairs, rest)) :
    ∃ t, s = '\x7b' :: t ∧ '\x7d' :: rest <:+ t := by
  cases n with
  | zero => cases h
  | succ n =>
    rw [scanOnce.eq_def] at h
    dsimp only at h
    split at h
    · split at h
      · cases h
      · cases h
    · split at h
      · cases h
      · obtain ⟨items, hitems⟩ := scanItems_array py _ _ _ _ _ h
        cases hitems
    · next t =>
      refine ⟨t, rfl, ?_⟩
      split at h
      · next rest' hrest =>
        cases h
        exact hrest ▸ skipWhitespace_suffix t
      · exact (scanPairs_closed py _ _ _ _ _ h).trans (skipWhitespace_suffix t)
    · split at h
      · next out hout =>
        cases h
        exact absurd hout (scanConstant_not_object s rest pairs)
      · exact absurd h (scanNumber_not_object py s rest pairs)

/-- The text of a JSON object, without anything around it. -/
def ObjectText (py : Runtime) (text : Str) : Prop :=
  strip text = text ∧ ∃ pairs, loads py text = .ok (.obj pairs)

theorem json_blank (c : Char) (h : c ∈ [' ', '\t', '\n', '\r']) : isspace c = true := by
  have hall : ∀ d ∈ [' ', '\t', '\n', '\r'], isspace d = true := by decide
  exact hall c h

theorem skip_stripped (text : Str) (hhead : ∀ c ∈ text.head?, isspace c = false) :
    skipWhitespace text = text := by
  cases text with
  | nil => rfl
  | cons c t =>
    refine List.dropWhile_cons_of_neg (fun hc => ?_)
    have hblank := json_blank c (of_decide_eq_true hc)
    rw [hhead c rfl] at hblank
    cases hblank

/-- Where the last character is no blank, only nothing is skipped at the end. -/
theorem rest_nil (front rest : Str) (hlast : ∀ c ∈ (front ++ rest).getLast?, isspace c = false)
    (hempty : (skipWhitespace rest).isEmpty = true) : rest = [] := by
  cases hr : rest.reverse with
  | nil => simpa using hr
  | cons c r =>
    have hsplit : rest = r.reverse ++ [c] := by simpa using congrArg List.reverse hr
    have hblank : isspace c = true := by
      refine json_blank c (of_decide_eq_true (List.dropWhile_eq_nil_iff.mp
        (List.isEmpty_iff.mp hempty) c ?_))
      simp [hsplit]
    rw [hsplit, ← List.append_assoc, List.getLast?_concat] at hlast
    rw [hlast c rfl] at hblank
    cases hblank

theorem objectText_braced (py : Runtime) (text : Str) (h : ObjectText py text) : Braced text := by
  obtain ⟨hstrip, pairs, hloads⟩ := h
  obtain ⟨hhead, hlast⟩ := (strip_eq_self_iff text).mp hstrip
  unfold loads at hloads
  rw [skip_stripped text hhead] at hloads
  split at hloads
  · cases hloads
  · split at hloads
    · cases hloads
    · next v rest hscan =>
      split at hloads
      · next hempty =>
        cases hloads
        obtain ⟨t, rfl, body, hbody⟩ := scanOnce_object py _ _ _ _ hscan
        have hshape : '\x7b' :: t = ('\x7b' :: body ++ ['\x7d']) ++ rest := by
          rw [← hbody]
          simp
        rw [hshape] at hlast
        rw [rest_nil _ rest hlast hempty, List.append_nil] at hshape
        exact ⟨body, hshape⟩
      · cases hloads

/-- All three forms give the object back unless it, or what trails it, brings fences. -/
theorem extraction_iff (py : Runtime) (text preamble trailing w₁ w₂ : Str)
    (htext : ObjectText py text) (hpreamble : ∀ c ∈ preamble, c ∉ ['\x7b', '\x7d', '\x60'])
    (htrailing : ∀ c ∈ trailing, c ∉ ['\x7b', '\x7d']) (h₁ : ∀ c ∈ w₁, isspace c = true)
    (h₂ : ∀ c ∈ w₂, isspace c = true) :
    (extract_json (preamble ++ text) = text ∧
      extract_json (preamble ++ text ++ trailing) = text ∧
      extract_json ("```json".toList ++ w₁ ++ text ++ w₂ ++ fence) = text) ↔
        ¬ fence <:+: text ∧ ¬ TwoFences trailing := by
  have hbraced := objectText_braced py text htext
  have ha : '\x7b' ∉ preamble ∧ '\x60' ∉ preamble :=
    ⟨fun h => hpreamble _ h (by decide), fun h => hpreamble _ h (by decide)⟩
  have hb : '\x7b' ∉ trailing ∧ '\x7d' ∉ trailing :=
    ⟨fun h => htrailing _ h (by decide), fun h => htrailing _ h (by decide)⟩
  have hnone : ¬ TwoFences [] := by
    rintro ⟨a, b, c, h⟩
    simp [fence] at h
  rw [extract_fenced_iff hbraced w₁ h₁ h₂]
  constructor
  · rintro ⟨_, hmiddle, hfree⟩
    exact ⟨hfree, (extract_around_iff preamble text trailing ha hbraced hb hfree).mp hmiddle⟩
  · rintro ⟨hfree, htwo⟩
    have hfirst := (extract_around_iff preamble text [] ha hbraced (by simp) hfree).mpr hnone
    rw [List.append_nil] at hfirst
    exact ⟨hfirst, (extract_around_iff preamble text trailing ha hbraced hb hfree).mpr htwo, hfree⟩

/-- Objects without numbers are read back. -/
theorem objectText_dumps (py : Runtime) (pairs : List (Str × Json))
    (hstrip : strip (dumps true (.obj pairs)) = dumps true (.obj pairs))
    (h : Textual (.obj pairs)) : ObjectText py (dumps true (.obj pairs)) :=
  ⟨hstrip, pairs, loads_dumps py true (.obj pairs) h⟩

def noAgents : Str := "\x7b\"agents\": []\x7d".toList

theorem noAgents_object : ObjectText asciiRuntime noAgents :=
  objectText_dumps asciiRuntime [("agents".toList, .arr [])] (by rfl) ⟨by decide, trivial, trivial⟩

theorem noAgents_extracted :
    extract_json ("Sure: ".toList ++ noAgents) = noAgents ∧
      extract_json ("Sure: ".toList ++ noAgents ++ " Anything else?".toList) = noAgents ∧
      extract_json ("```json".toList ++ "\n".toList ++ noAgents ++ "\n".toList ++ fence) =
        noAgents :=
  (extraction_iff asciiRuntime noAgents "Sure: ".toList " Anything else?".toList "\n".toList
    "\n".toList noAgents_object
    (by decide) (by decide) (by decide) (by decide)).mpr
    ⟨by decide, by
      rintro ⟨a, b, c, h⟩
      have hmem : '\x60' ∈ " Anything else?".toList :=
        h ▸ List.mem_append_left _ (List.mem_append_right a (by decide))
      exact absurd hmem (by decide)⟩

/-- A sub-query that quotes commands. -/
def quotingCode : Str :=
  ("\x7b\"agents\": [\x7b\"agent\": \"kubernetes\", \"sub_query\": " ++
    "\"Why does ```kubectl get pods``` hang?\"\x7d]\x7d").toList

set_option maxRecDepth 2000 in
theorem quotingCode_object : ObjectText asciiRuntime quotingCode := by
  have hdumps : quotingCode = dumps true (.obj [("agents".toList, .arr [.obj [
      ("agent".toList, .str "kubernetes".toList),
      ("sub_query".toList, .str "Why does ```kubectl get pods``` hang?".toList)]])]) := by rfl
  have hstrip : strip quotingCode = quotingCode := by rfl
  rw [hdumps] at hstrip ⊢
  exact objectText_dumps asciiRuntime _ hstrip
    ⟨by decide, ⟨⟨by decide, trivial, trivial, trivial⟩, trivial⟩, trivial⟩

set_option maxRecDepth 2000 in
theorem quoted_code_lost : ¬ ∀ (text preamble trailing w₁ w₂ : Str),
    ObjectText asciiRuntime text → (∀ c ∈ preamble, c ∉ ['\x7b', '\x7d', '\x60']) →
    (∀ c ∈ trailing, c ∉ ['\x7b', '\x7d']) → (∀ c ∈ w₁, isspace c = true) →
    (∀ c ∈ w₂, isspace c = true) →
      extract_json (preamble ++ text) = text ∧
      extract_json (preamble ++ text ++ trailing) = text ∧
      extract_json ("```json".toList ++ w₁ ++ text ++ w₂ ++ fence) = text := by
  intro h
  have hcut : extract_json ([] ++ quotingCode) = "kubectl get pods".toList := by rfl
  have hkept := (h quotingCode [] [] [] [] quotingCode_object (by simp) (by simp) (by simp)
    (by simp)).1
  rw [hcut] at hkept
  exact absurd (congrArg List.length hkept) (by decide)

end AigentSquad.ExtractJson
