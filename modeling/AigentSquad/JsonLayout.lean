import AigentSquad.JsonScan

/-!
# Layouts of JSON text

`json.dumps` with its `indent` and `separators`, and the round trip through any
layout: what is read does not depend on the whitespace between the tokens.
-/

set_option autoImplicit false

namespace AigentSquad.PyJson
open AigentSquad.PyText

/-- The indentation of one level and what follows a comma and a colon. -/
structure Layout where
  indent : Option Str
  item_space : Str
  key_space : Str
  blank : ∀ s ∈ indent.toList ++ [item_space, key_space], ∀ c ∈ s, isBlank c = true

/-- The default separators. -/
def Layout.plain : Layout := ⟨none, " ".toList, " ".toList, by decide⟩

/-- The newline of an indented text, with the indentation of the level. -/
def Layout.newline (l : Layout) (level : Nat) : Str :=
  match l.indent with
  | none => []
  | some i => '\n' :: (List.replicate level i).flatten

def Layout.separator (l : Layout) (level : Nat) : Str :=
  ',' :: (l.item_space ++ l.newline level)

def Layout.colon (l : Layout) : Str := ':' :: l.key_space

/-- The parts between their brackets. -/
def Layout.enclose (l : Layout) (level : Nat) (opening closing : Char) (parts : List Str) : Str :=
  if parts.isEmpty then [opening, closing]
  else opening :: (l.newline (level + 1) ++
    (join (l.separator (level + 1)) parts ++ (l.newline level ++ [closing])))

mutual

def render (ensure_ascii : Bool) (l : Layout) (level : Nat) : Json → Str
  | .null => "null".toList
  | .bool true => "true".toList
  | .bool false => "false".toList
  | .int i => strInt i
  | .float text => text
  | .str s => quote ensure_ascii s
  | .arr items => l.enclose level '[' ']' (renderItems ensure_ascii l (level + 1) items)
  | .obj pairs => l.enclose level '\x7b' '\x7d' (renderPairs ensure_ascii l (level + 1) pairs)

def renderItems (ensure_ascii : Bool) (l : Layout) (level : Nat) : List Json → List Str
  | [] => []
  | x :: xs => render ensure_ascii l level x :: renderItems ensure_ascii l level xs

def renderPairs (ensure_ascii : Bool) (l : Layout) (level : Nat) : List (Str × Json) → List Str
  | [] => []
  | (k, x) :: kvs =>
    (quote ensure_ascii k ++ (l.colon ++ render ensure_ascii l level x)) ::
      renderPairs ensure_ascii l level kvs

end

theorem plain_enclose (level : Nat) (opening closing : Char) (parts : List Str) :
    Layout.plain.enclose level opening closing parts =
      opening :: join ", ".toList parts ++ [closing] := by
  cases parts with
  | nil => rfl
  | cons x xs => rfl

mutual

theorem render_plain (ea : Bool) (level : Nat) : (j : Json) →
    render ea .plain level j = dumps ea j
  | .null => rfl
  | .bool true => rfl
  | .bool false => rfl
  | .int _ => rfl
  | .float _ => rfl
  | .str _ => rfl
  | .arr items => by rw [render, dumps, renderItems_plain ea (level + 1) items, plain_enclose]
  | .obj pairs => by rw [render, dumps, renderPairs_plain ea (level + 1) pairs, plain_enclose]

theorem renderItems_plain (ea : Bool) (level : Nat) : (items : List Json) →
    renderItems ea .plain level items = dumpsItems ea items
  | [] => rfl
  | x :: xs => by
    rw [renderItems, dumpsItems, render_plain ea level x, renderItems_plain ea level xs]

theorem renderPairs_plain (ea : Bool) (level : Nat) : (pairs : List (Str × Json)) →
    renderPairs ea .plain level pairs = dumpsPairs ea pairs
  | [] => rfl
  | (k, x) :: kvs => by
    rw [renderPairs, dumpsPairs, render_plain ea level x, renderPairs_plain ea level kvs,
      List.append_assoc]
    rfl

end

/-! ## The values that are printed and read back -/

/-- A float as `repr` prints it, or one of the names JSON is given for it. -/
def FloatText (py : Runtime) (text : Str) : Prop :=
  text ∈ ["NaN".toList, "Infinity".toList, "-Infinity".toList] ∨
    scanNumber py text = .ok (.float text, [])

mutual

/-- No integer beyond the digit limit, no key twice. -/
def Sound (py : Runtime) : Json → Prop
  | .int i => DigitLimit i
  | .float text => FloatText py text
  | .arr items => SoundItems py items
  | .obj pairs => (pairs.map Prod.fst).Nodup ∧ SoundPairs py pairs
  | _ => True

def SoundItems (py : Runtime) : List Json → Prop
  | [] => True
  | x :: xs => Sound py x ∧ SoundItems py xs

def SoundPairs (py : Runtime) : List (Str × Json) → Prop
  | [] => True
  | (_, x) :: kvs => Sound py x ∧ SoundPairs py kvs

end

/-- What a text starts with that is neither whitespace nor a closing bracket. -/
def Opens (s : Str) : Prop :=
  ∃ c t, s = c :: t ∧ (c.isDigit = true ∨ c ∈ ['-', 'N', 'I', 'n', 't', 'f', '"', '[', '\x7b'])

theorem Opens.not_blank {c : Char}
    (h : c.isDigit = true ∨ c ∈ ['-', 'N', 'I', 'n', 't', 'f', '"', '[', '\x7b']) :
    isBlank c = false ∧ c ≠ ']' := by
  constructor
  · by_contra hblank
    simp only [isBlank, List.mem_cons, List.not_mem_nil, or_false, Bool.not_eq_false,
      decide_eq_true_eq] at hblank
    rcases hblank with rfl | rfl | rfl | rfl <;> revert h <;> decide
  · rintro rfl
    revert h
    decide

theorem Opens.skip {s : Str} (h : Opens s) (rest : Str) :
    skipWhitespace (s ++ rest) = s ++ rest := by
  obtain ⟨c, t, rfl, hc⟩ := h
  rw [List.cons_append, skipWhitespace]
  apply List.dropWhile_cons_of_neg
  have hblank := (Opens.not_blank hc).1
  rw [isBlank] at hblank
  simpa using hblank

theorem Opens.not_close {s : Str} (h : Opens s) (rest t : Str) : s ++ rest ≠ ']' :: t := by
  obtain ⟨c, u, rfl, hc⟩ := h
  intro heq
  rw [List.cons_append, List.cons.injEq] at heq
  exact (Opens.not_blank hc).2 heq.1

theorem Opens.append {s : Str} (h : Opens s) (rest : Str) : Opens (s ++ rest) := by
  obtain ⟨c, t, rfl, hc⟩ := h
  exact ⟨c, t ++ rest, rfl, hc⟩

theorem quote_opens (ea : Bool) (s : Str) : Opens (quote ea s) := ⟨_, _, rfl, .inr (by simp)⟩

theorem scanNumber_opens (py : Runtime) (s tail : Str) (v : Json)
    (h : scanNumber py s = .ok (v, tail)) : Opens s := by
  obtain ⟨c, t, rfl, hc⟩ | ⟨c, t, rfl, _⟩ := scanNumber_front py s tail v h
  · exact ⟨c, t, rfl, .inl hc⟩
  · exact ⟨'-', c :: t, rfl, .inr (by simp)⟩

theorem float_opens (py : Runtime) (text : Str) (h : FloatText py text) : Opens text := by
  rcases h with h | h
  · simp only [List.mem_cons, List.not_mem_nil, or_false] at h
    rcases h with rfl | rfl | rfl
    · exact ⟨'N', _, rfl, by decide⟩
    · exact ⟨'I', _, rfl, by decide⟩
    · exact ⟨'-', _, rfl, by decide⟩
  · exact scanNumber_opens py text [] _ h

theorem enclose_opens (l : Layout) (level : Nat) (opening closing : Char) (parts : List Str)
    (h : opening ∈ ['[', '\x7b']) : Opens (l.enclose level opening closing parts) := by
  have hopening : opening ∈ ['-', 'N', 'I', 'n', 't', 'f', '"', '[', '\x7b'] := by
    simp only [List.mem_cons, List.not_mem_nil, or_false] at h ⊢
    tauto
  unfold Layout.enclose
  split
  · exact ⟨_, _, rfl, .inr hopening⟩
  · exact ⟨_, _, rfl, .inr hopening⟩

theorem render_opens (py : Runtime) (ea : Bool) (l : Layout) (level : Nat) (j : Json)
    (h : Sound py j) : Opens (render ea l level j) := by
  cases j with
  | null => exact ⟨'n', "ull".toList, rfl, by decide⟩
  | bool b =>
    cases b with
    | true => exact ⟨'t', "rue".toList, rfl, by decide⟩
    | false => exact ⟨'f', "alse".toList, rfl, by decide⟩
  | int i => exact scanNumber_opens py _ _ _ (scanNumber_int py i h)
  | float text => exact float_opens py text h
  | str s => exact quote_opens ea s
  | arr items => exact enclose_opens l level '[' ']' _ (by simp)
  | obj pairs => exact enclose_opens l level '\x7b' '\x7d' _ (by simp)

/-! ## Whitespace -/

theorem skip_blank (gap s : Str) (h : ∀ c ∈ gap, isBlank c = true) :
    skipWhitespace (gap ++ s) = skipWhitespace s :=
  List.dropWhile_append_of_pos h

theorem newline_blank (l : Layout) (level : Nat) : ∀ c ∈ l.newline level, isBlank c = true := by
  intro c hc
  unfold Layout.newline at hc
  cases hindent : l.indent with
  | none =>
    rw [hindent] at hc
    cases hc
  | some i =>
    rw [hindent] at hc
    simp only [List.mem_cons, List.mem_flatten, List.mem_replicate] at hc
    rcases hc with rfl | ⟨s, ⟨_, rfl⟩, hc⟩
    · decide
    · exact l.blank s (by simp [hindent]) c hc

theorem item_gap_blank (l : Layout) (level : Nat) :
    ∀ c ∈ l.item_space ++ l.newline level, isBlank c = true := by
  intro c hc
  rcases List.mem_append.mp hc with hc | hc
  · exact l.blank _ (by simp) c hc
  · exact newline_blank l level c hc

theorem key_gap_blank (l : Layout) : ∀ c ∈ l.key_space, isBlank c = true :=
  l.blank _ (by simp)

theorem stops_gap (gap rest : Str) (c : Char) (hgap : ∀ d ∈ gap, isBlank d = true)
    (hc : c ∈ [',', ']', '\x7d']) : Stops (gap ++ c :: rest) := by
  intro d hd
  cases gap with
  | nil =>
    cases hd
    exact .inr hc
  | cons e gap =>
    cases hd
    exact .inl (hgap d List.mem_cons_self)

theorem stops_comma (rest : Str) : Stops (',' :: rest) :=
  stops_gap [] rest ',' (by simp) (by simp)

theorem stops_nil : Stops [] := by
  intro c hc
  cases hc

theorem skip_comma (rest : Str) : skipWhitespace (',' :: rest) = ',' :: rest := rfl

theorem skip_gap_to (gap rest : Str) (c : Char) (hgap : ∀ d ∈ gap, isBlank d = true)
    (hc : isBlank c = false) : skipWhitespace (gap ++ c :: rest) = c :: rest := by
  rw [skip_blank gap _ hgap]
  apply List.dropWhile_cons_of_neg
  rw [isBlank] at hc
  simpa using hc

/-! ## The scanners on a layout -/

section Scan
variable (py : Runtime) (ea : Bool) (n : Nat)

theorem scanOnce_number (s rest : Str) (v : Json) (hrest : Stops rest)
    (h : scanNumber py s = .ok (v, [])) : scanOnce py (n + 1) (s ++ rest) = .ok (v, rest) := by
  have happend := scanNumber_append py s rest [] v hrest h
  rw [List.nil_append] at happend
  have hconstant : ∀ c t, s = c :: t → c ≠ '"' ∧ c ≠ '[' ∧ c ≠ '\x7b' ∧
      scanConstant (s ++ rest) = none := by
    rintro c t rfl
    obtain ⟨d, u, heq, hd⟩ | ⟨d, u, heq, hd⟩ := scanNumber_front py _ [] v h
    · cases heq
      have hne : ∀ e ∈ ['"', '[', '\x7b', 'n', 't', 'f', 'N', 'I', '-'], c ≠ e := by
        rintro e he rfl
        have hnone : ∀ e ∈ ['"', '[', '\x7b', 'n', 't', 'f', 'N', 'I', '-'],
            e.isDigit = false := by decide
        rw [hnone c he] at hd
        cases hd
      refine ⟨hne _ (by simp), hne _ (by simp), hne _ (by simp), ?_⟩
      have hsub : ['n', 't', 'f', 'N', 'I', '-'] ⊆ ['"', '[', '\x7b', 'n', 't', 'f', 'N', 'I', '-'] :=
        List.subset_append_right ['"', '[', '\x7b'] _
      exact scanConstant_none c _ (fun hmem => hne c (hsub hmem) rfl)
    · cases heq
      refine ⟨by decide, by decide, by decide, ?_⟩
      have hI : 'I' ≠ d := by
        rintro rfl
        exact absurd hd (by decide)
      simp [scanConstant, constants, dropPrefix, startswith, hI]
  cases s with
  | nil => cases h
  | cons c t =>
    obtain ⟨hquote, harray, hobject, hnone⟩ := hconstant c t rfl
    unfold scanOnce
    split
    · next heq => exact absurd (List.cons.inj heq).1 hquote
    · next heq => exact absurd (List.cons.inj heq).1 harray
    · next heq => exact absurd (List.cons.inj heq).1 hobject
    · rw [hnone]
      exact happend

theorem scanOnce_float (text rest : Str) (h : FloatText py text) (hrest : Stops rest) :
    scanOnce py (n + 1) (text ++ rest) = .ok (.float text, rest) := by
  rcases h with h | h
  · simp only [List.mem_cons, List.not_mem_nil, or_false] at h
    rcases h with rfl | rfl | rfl
    · rfl
    · rfl
    · rfl
  · exact scanOnce_number py n text rest _ hrest h

theorem scanOnce_array (gap s rest : Str) (hgap : ∀ c ∈ gap, isBlank c = true) (h : Opens s) :
    scanOnce py (n + 1) ('[' :: (gap ++ (s ++ rest))) = scanItems py n [] (s ++ rest) := by
  rw [scanOnce, skip_blank gap _ hgap, h.skip]
  split
  · next t ht => exact absurd ht (h.not_close rest t)
  · rfl

theorem scanOnce_object (gap k rest : Str) (hgap : ∀ c ∈ gap, isBlank c = true) :
    scanOnce py (n + 1) ('\x7b' :: (gap ++ (quote ea k ++ rest))) =
      scanPairs py n [] (quote ea k ++ rest) := by
  rw [scanOnce, skip_blank gap _ hgap, (quote_opens ea k).skip, quote_append]
  rfl

theorem scanItems_last (acc : List Json) (x : Json) (s gap rest : Str)
    (hgap : ∀ c ∈ gap, isBlank c = true)
    (h : scanOnce py n (s ++ (gap ++ ']' :: rest)) = .ok (x, gap ++ ']' :: rest)) :
    scanItems py (n + 1) acc (s ++ (gap ++ ']' :: rest)) =
      .ok (.arr (acc.reverse ++ [x]), rest) := by
  rw [scanItems, h]
  simp only [skip_gap_to gap rest ']' hgap (by decide), List.reverse_cons]

theorem scanItems_more (acc : List Json) (x : Json) (s gap t : Str)
    (hgap : ∀ c ∈ gap, isBlank c = true) (ht : Opens t)
    (h : scanOnce py n (s ++ ',' :: (gap ++ t)) = .ok (x, ',' :: (gap ++ t))) :
    scanItems py (n + 1) acc (s ++ ',' :: (gap ++ t)) = scanItems py n (x :: acc) t := by
  have hopen : skipWhitespace t = t := by simpa using ht.skip []
  rw [scanItems, h]
  simp only [skip_comma, skip_blank gap t hgap, hopen]

variable (acc : List (Str × Json)) (k : Str) (v : Json)

theorem skip_colon (space t rest : Str) (hspace : ∀ c ∈ space, isBlank c = true) (ht : Opens t) :
    skipWhitespace (':' :: (space ++ (t ++ rest))) = ':' :: (space ++ (t ++ rest)) ∧
      skipWhitespace (space ++ (t ++ rest)) = t ++ rest :=
  ⟨rfl, (skip_blank space _ hspace).trans (ht.skip rest)⟩

theorem scanPairs_last (space t gap rest : Str) (hspace : ∀ c ∈ space, isBlank c = true)
    (hgap : ∀ c ∈ gap, isBlank c = true) (ht : Opens t)
    (h : scanOnce py n (t ++ (gap ++ '\x7d' :: rest)) = .ok (v, gap ++ '\x7d' :: rest)) :
    scanPairs py (n + 1) acc
        (quote ea k ++ ':' :: (space ++ (t ++ (gap ++ '\x7d' :: rest)))) =
      .ok (.obj (dictOf ((k, v) :: acc).reverse), rest) := by
  obtain ⟨hcolon, hvalue⟩ := skip_colon space t (gap ++ '\x7d' :: rest) hspace ht
  rw [quote_append, scanPairs]
  simp only [scanString_quote, hcolon, hvalue, h, skip_gap_to gap rest '\x7d' hgap (by decide)]

theorem scanPairs_more (space t gap u : Str) (hspace : ∀ c ∈ space, isBlank c = true)
    (hgap : ∀ c ∈ gap, isBlank c = true) (ht : Opens t) (hu : Opens u)
    (h : scanOnce py n (t ++ ',' :: (gap ++ u)) = .ok (v, ',' :: (gap ++ u))) :
    scanPairs py (n + 1) acc (quote ea k ++ ':' :: (space ++ (t ++ ',' :: (gap ++ u)))) =
      scanPairs py n ((k, v) :: acc) u := by
  obtain ⟨hcolon, hvalue⟩ := skip_colon space t (',' :: (gap ++ u)) hspace ht
  have hopen : skipWhitespace u = u := by simpa using hu.skip []
  rw [quote_append, scanPairs]
  simp only [scanString_quote, hcolon, hvalue, h, skip_comma, skip_blank gap u hgap, hopen]

end Scan

/-! ## The round trip -/

theorem dictInsert_new (d : List (Str × Json)) (k : Str) (v : Json) (h : k ∉ d.map Prod.fst) :
    dictInsert d (k, v) = d ++ [(k, v)] := by
  unfold dictInsert
  rw [if_neg]
  intro hany
  obtain ⟨e, he, hk⟩ := List.any_eq_true.mp hany
  exact h (List.mem_map.mpr ⟨e, he, of_decide_eq_true hk⟩)

theorem dictOf_distinct (d pairs : List (Str × Json)) (h : ((d ++ pairs).map Prod.fst).Nodup) :
    pairs.foldl dictInsert d = d ++ pairs := by
  induction pairs generalizing d with
  | nil => simp
  | cons e pairs ih =>
    obtain ⟨k, v⟩ := e
    have hk : k ∉ d.map Prod.fst := by
      rw [List.map_append, List.map_cons, List.nodup_append] at h
      intro hmem
      exact h.2.2 k hmem k (by simp) rfl
    rw [List.foldl_cons, dictInsert_new d k v hk, ih (d ++ [(k, v)]) (by simpa using h)]
    simp

/-- A number is read up to a stop; the other values close themselves. -/
def Ends (j : Json) (rest : Str) : Prop :=
  match j with
  | .int _ => Stops rest
  | .float _ => Stops rest
  | _ => True

theorem Stops.ends {rest : Str} (h : Stops rest) (j : Json) : Ends j rest := by
  cases j with
  | int i => exact h
  | float text => exact h
  | _ => trivial

theorem items_opens (py : Runtime) (ea : Bool) (l : Layout) (level : Nat) (sep : Str) (x : Json)
    (xs : List Json) (h : Sound py x) :
    Opens (join sep (renderItems ea l level (x :: xs))) := by
  cases xs with
  | nil => exact render_opens py ea l level x h
  | cons y ys =>
    rw [renderItems, renderItems, join_cons_cons, List.append_assoc]
    exact (render_opens py ea l level x h).append _

theorem pairs_quote (ea : Bool) (l : Layout) (level : Nat) (sep k : Str) (x : Json)
    (kvs : List (Str × Json)) :
    ∃ u, join sep (renderPairs ea l level ((k, x) :: kvs)) = quote ea k ++ u := by
  cases kvs with
  | nil => exact ⟨l.colon ++ render ea l level x, rfl⟩
  | cons e kvs =>
    obtain ⟨k', x'⟩ := e
    rw [renderPairs, renderPairs, join_cons_cons, List.append_assoc, List.append_assoc]
    exact ⟨_, rfl⟩

theorem pairs_opens (ea : Bool) (l : Layout) (level : Nat) (sep k : Str) (x : Json)
    (kvs : List (Str × Json)) : Opens (join sep (renderPairs ea l level ((k, x) :: kvs))) := by
  obtain ⟨u, hu⟩ := pairs_quote ea l level sep k x kvs
  rw [hu]
  exact (quote_opens ea k).append u

theorem enclose_cons (l : Layout) (level : Nat) (opening closing : Char) (x : Str)
    (xs : List Str) (rest : Str) :
    l.enclose level opening closing (x :: xs) ++ rest =
      opening :: (l.newline (level + 1) ++ (join (l.separator (level + 1)) (x :: xs) ++
        (l.newline level ++ closing :: rest))) := by
  simp [Layout.enclose]

theorem enclose_length (l : Layout) (level : Nat) (opening closing : Char) (x : Str)
    (xs : List Str) :
    (join (l.separator (level + 1)) (x :: xs)).length + 2 ≤
      (l.enclose level opening closing (x :: xs)).length := by
  simp only [Layout.enclose, List.isEmpty_cons, Bool.false_eq_true, if_false, List.length_cons,
    List.length_append, List.length_nil]
  omega

section Items
variable (ea : Bool) (l : Layout) (level : Nat)

theorem items_text (x y : Json) (ys : List Json) (rest : Str) :
    join (l.separator level) (renderItems ea l level (x :: y :: ys)) ++ rest =
      render ea l level x ++ ',' :: ((l.item_space ++ l.newline level) ++
        (join (l.separator level) (renderItems ea l level (y :: ys)) ++ rest)) := by
  simp [renderItems, join, Layout.separator]

theorem items_length (x y : Json) (ys : List Json) :
    (render ea l level x).length + 1 +
        (join (l.separator level) (renderItems ea l level (y :: ys))).length ≤
      (join (l.separator level) (renderItems ea l level (x :: y :: ys))).length := by
  have htext := congrArg List.length (items_text ea l level x y ys [])
  simp only [List.length_append, List.length_cons, List.length_nil] at htext
  omega

theorem pairs_text_one (k : Str) (x : Json) (rest : Str) :
    join (l.separator level) (renderPairs ea l level [(k, x)]) ++ rest =
      quote ea k ++ ':' :: (l.key_space ++ (render ea l level x ++ rest)) := by
  simp [renderPairs, Layout.colon]

theorem pairs_text (k k' : Str) (x y : Json) (kvs : List (Str × Json)) (rest : Str) :
    join (l.separator level) (renderPairs ea l level ((k, x) :: (k', y) :: kvs)) ++ rest =
      quote ea k ++ ':' :: (l.key_space ++ (render ea l level x ++
        ',' :: ((l.item_space ++ l.newline level) ++
          (join (l.separator level) (renderPairs ea l level ((k', y) :: kvs)) ++ rest)))) := by
  simp [renderPairs, join, Layout.separator, Layout.colon]

theorem pairs_length_one (k : Str) (x : Json) :
    (render ea l level x).length + 1 ≤
      (join (l.separator level) (renderPairs ea l level [(k, x)])).length := by
  have htext := congrArg List.length (pairs_text_one ea l level k x [])
  simp only [List.length_append, List.length_cons, List.length_nil] at htext
  omega

theorem pairs_length (k k' : Str) (x y : Json) (kvs : List (Str × Json)) :
    (render ea l level x).length + 2 +
        (join (l.separator level) (renderPairs ea l level ((k', y) :: kvs))).length ≤
      (join (l.separator level) (renderPairs ea l level ((k, x) :: (k', y) :: kvs))).length := by
  have htext := congrArg List.length (pairs_text ea l level k k' x y kvs [])
  simp only [List.length_append, List.length_cons, List.length_nil] at htext
  omega

end Items

mutual

/-- A printed value is read back, whatever the layout and what follows. -/
theorem scanOnce_render (py : Runtime) (ea : Bool) (l : Layout) : (j : Json) → Sound py j →
    ∀ (level n : Nat) (rest : Str), Ends j rest → 2 * (render ea l level j).length < n →
    scanOnce py n (render ea l level j ++ rest) = .ok (j, rest)
  | _, _, _, 0, _, _, h => by simp at h
  | .null, _, _, _ + 1, _, _, _ => rfl
  | .bool true, _, _, _ + 1, _, _, _ => rfl
  | .bool false, _, _, _ + 1, _, _, _ => rfl
  | .int i, hj, _, n + 1, rest, hrest, _ =>
    scanOnce_number py n _ rest _ hrest (scanNumber_int py i hj)
  | .float text, hj, _, n + 1, rest, hrest, _ => scanOnce_float py n text rest hj hrest
  | .str s, _, _, n + 1, rest, _, _ => scanOnce_quote py ea n s rest
  | .arr [], _, _, _ + 1, _, _, _ => rfl
  | .arr (x :: xs), hj, level, n + 1, rest, _, h => by
    rw [render, renderItems] at h
    have hlength := enclose_length l level '[' ']' (render ea l (level + 1) x)
      (renderItems ea l (level + 1) xs)
    have hitems := scanItems_render py ea l x xs hj (level + 1) n [] (l.newline level) rest
      (newline_blank l level) (by rw [renderItems]; omega)
    rw [render, renderItems, enclose_cons, ← renderItems, scanOnce_array py n _ _ _
      (newline_blank l (level + 1)) (items_opens py ea l (level + 1) _ x xs hj.1), hitems]
    rfl
  | .obj [], _, _, _ + 1, _, _, _ => rfl
  | .obj ((k, x) :: kvs), hj, level, n + 1, rest, _, h => by
    rw [render, renderPairs] at h
    have hlength := enclose_length l level '\x7b' '\x7d'
      (quote ea k ++ (l.colon ++ render ea l (level + 1) x)) (renderPairs ea l (level + 1) kvs)
    have hpairs := scanPairs_render py ea l k x kvs hj.2 (level + 1) n [] (l.newline level) rest
      (newline_blank l level) (by rw [renderPairs]; omega) (by simpa using hj.1)
    obtain ⟨u, hquote⟩ := pairs_quote ea l (level + 1) (l.separator (level + 1)) k x kvs
    rw [render, renderPairs, enclose_cons, ← renderPairs, hquote, List.append_assoc,
      scanOnce_object py ea n _ _ _ (newline_blank l (level + 1)), ← List.append_assoc, ← hquote,
      hpairs]
    rfl

theorem scanItems_render (py : Runtime) (ea : Bool) (l : Layout) : (x : Json) →
    (xs : List Json) → SoundItems py (x :: xs) →
    ∀ (level n : Nat) (acc : List Json) (gap rest : Str), (∀ c ∈ gap, isBlank c = true) →
    2 * (join (l.separator level) (renderItems ea l level (x :: xs))).length + 1 < n →
    scanItems py n acc (join (l.separator level) (renderItems ea l level (x :: xs)) ++
        (gap ++ ']' :: rest)) = .ok (.arr (acc.reverse ++ x :: xs), rest)
  | _, _, _, _, 0, _, _, _, _, h => by simp at h
  | x, [], hj, level, n + 1, acc, gap, rest, hgap, h => by
    have hstops := stops_gap gap rest ']' hgap (by simp)
    have hone := scanOnce_render py ea l x hj.1 level n _ (hstops.ends x)
      (by simp [renderItems] at h; omega)
    exact scanItems_last py n acc x _ gap rest hgap hone
  | x, y :: ys, hj, level, n + 1, acc, gap, rest, hgap, h => by
    have hlength := items_length ea l level x y ys
    have hnext := item_gap_blank l level
    have hone := fun after => scanOnce_render py ea l x hj.1 level n (',' :: after)
      ((stops_comma after).ends x) (by omega)
    have hmore := scanItems_render py ea l y ys hj.2 level n (x :: acc) gap rest hgap (by omega)
    rw [items_text, scanItems_more py n acc x _ _ _ hnext
      ((items_opens py ea l level _ y ys hj.2.1).append _) (hone _), hmore]
    simp

theorem scanPairs_render (py : Runtime) (ea : Bool) (l : Layout) : (k : Str) → (x : Json) →
    (kvs : List (Str × Json)) → SoundPairs py ((k, x) :: kvs) →
    ∀ (level n : Nat) (acc : List (Str × Json)) (gap rest : Str), (∀ c ∈ gap, isBlank c = true) →
    2 * (join (l.separator level) (renderPairs ea l level ((k, x) :: kvs))).length + 1 < n →
    ((acc.reverse ++ (k, x) :: kvs).map Prod.fst).Nodup →
    scanPairs py n acc (join (l.separator level) (renderPairs ea l level ((k, x) :: kvs)) ++
        (gap ++ '\x7d' :: rest)) = .ok (.obj (acc.reverse ++ (k, x) :: kvs), rest)
  | _, _, _, _, _, 0, _, _, _, _, h, _ => by simp at h
  | k, x, [], hj, level, n + 1, acc, gap, rest, hgap, h, hkeys => by
    have hlength := pairs_length_one ea l level k x
    have hstops := stops_gap gap rest '\x7d' hgap (by simp)
    have hone := scanOnce_render py ea l x hj.1 level n _ (hstops.ends x) (by omega)
    rw [pairs_text_one, scanPairs_last py ea n acc k x _ _ gap rest (key_gap_blank l) hgap
      (render_opens py ea l level x hj.1) hone, dictOf, dictOf_distinct [] _ (by simpa using hkeys)]
    simp
  | k, x, (k', y) :: kvs, hj, level, n + 1, acc, gap, rest, hgap, h, hkeys => by
    have hlength := pairs_length ea l level k k' x y kvs
    have hnext := item_gap_blank l level
    have hone := fun after => scanOnce_render py ea l x hj.1 level n (',' :: after)
      ((stops_comma after).ends x) (by omega)
    have hmore := scanPairs_render py ea l k' y kvs hj.2 level n ((k, x) :: acc) gap rest hgap
      (by omega) (by simpa using hkeys)
    rw [pairs_text, scanPairs_more py ea n acc k x _ _ _ _ (key_gap_blank l) hnext
      (render_opens py ea l level x hj.1) ((pairs_opens ea l level _ k' y kvs).append _) (hone _), hmore]
    simp

end

/-- Reading back what was printed. -/
theorem loads_render (py : Runtime) (ea : Bool) (l : Layout) (j : Json) (h : Sound py j) :
    loads py (render ea l 0 j) = .ok j := by
  have hopen := render_opens py ea l 0 j h
  have hskip : skipWhitespace (render ea l 0 j) = render ea l 0 j := by simpa using hopen.skip []
  have hbom : (render ea l 0 j).head? ≠ some (Char.ofNat 0xfeff) := by
    obtain ⟨c, t, heq, hc⟩ := hopen
    intro hhead
    rw [heq, List.head?_cons, Option.some.injEq] at hhead
    rw [hhead] at hc
    revert hc
    decide
  have hscan := scanOnce_render py ea l j h 0 (2 * (render ea l 0 j).length + 1) []
    (stops_nil.ends j) (by omega)
  rw [List.append_nil] at hscan
  unfold loads
  rw [if_neg hbom, hskip, hscan]
  rfl

end AigentSquad.PyJson
