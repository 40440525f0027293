import AigentSquad.BearerReplacement
import AigentSquad.Provenance

/-!
# Keys are removed

A key between two characters that are no word characters is gone from what
`redact` returns: at the turn of its pattern it still stands between such
characters, whatever was replaced around it.
-/

set_option autoImplicit false

namespace AigentSquad.KeyRemoval
open AigentSquad.PyText AigentSquad.Regex AigentSquad.Substitution AigentSquad.Provenance
open AigentSquad.Redactor AigentSquad.SecretTexts AigentSquad.BearerReplacement

/-- A text long enough for a key, that begins with a letter and ends with no hyphen. -/
structure KeyLike (w : Str) : Prop where
  chars : ∀ c ∈ w, key_char c = true
  long : 20 ≤ w.length
  first : w.head?.any Char.isAlpha = true
  last : w.getLast? ≠ some '-'

theorem KeyLike.ne_nil {w : Str} (hw : KeyLike w) : w ≠ [] := by
  rintro rfl
  exact absurd hw.long (by decide)

theorem KeyLike.not_mem {w : Str} (hw : KeyLike w) (c : Char) (hc : key_char c = false) :
    c ∉ w := by
  intro hmem
  rw [hw.chars c hmem] at hc
  cases hc

theorem KeyLike.alike {w w' : Str} (hw : KeyLike w) (h : List.Forall₂ Alike w' w) :
    KeyLike w' where
  chars := alike_all key_char key_of_alpha w' w h hw.chars
  long := h.length_eq ▸ hw.long
  first := by
    have hfirst := hw.first
    cases h with
    | nil => exact hfirst
    | cons hxy _ =>
      rcases hxy with rfl | ⟨halpha, _, _⟩
      · exact hfirst
      · exact halpha
  last := by
    have hlast := hw.last
    have hrev := List.rel_reverse h
    rw [← List.head?_reverse] at hlast ⊢
    revert hrev hlast
    generalize w'.reverse = a
    generalize w.reverse = b
    intro hlast hrev
    cases hrev with
    | nil => exact hlast
    | cons hxy _ =>
      rcases hxy with rfl | ⟨halpha, _, _⟩
      · exact hlast
      · rw [List.head?_cons, ne_eq, Option.some.injEq]
        rintro rfl
        exact absurd halpha (by decide)

/-- No word character stands before `p` or behind `q`. -/
structure Free (word : Char → Bool) (p q : Pos) : Prop where
  before : p.before.head?.any word = false
  after : q.after.head?.any word = false

theorem no_word (py : Runtime) (c : Char) (hc : c ∈ ['<', '>', ' ', '"', '\\']) :
    py.word c = false := by
  have hmark : ∀ d ∈ ['<', '>', ' ', '"', '\\'], isAscii d = true ∧
      (d.isAlphanum || d == '_') = false := by decide
  obtain ⟨hascii, hword⟩ := hmark c hc
  rw [py.word_ascii c hascii, hword]

theorem stays_before (py : Runtime) {r : Rx} {repl : Str} {p p' : Pos}
    (h : Stays py.word r repl '>' p p') (hp : p.before.head?.any py.word = false) :
    p'.before.head?.any py.word = false := by
  rcases h.link with hsame | ⟨hlast, _⟩
  · rw [hsame]
    exact hp
  · rw [hlast]
    exact no_word py '>' (by decide)

/-- A key behind a replacement that begins with a bracket stood in the text. -/
theorem stays_marker (py : Runtime) {r : Rx} {repl : Str} (hrepl : Marker repl) {p p' q' : Pos}
    (h : Stays py.word r repl '>' p p') {w : Str} (hw : KeyLike w) (hread : Reads p' w q') :
    ∃ q, Reads p w q ∧ (Free py.word p q → Free py.word p' q') := by
  obtain ⟨n, hn, hafter⟩ := h.goes_on
  obtain ⟨k, l, rfl, q, hq, hgoes⟩ := sub_prefix py.word r repl '>'
    (List.mem_of_getLast? hrepl.last) n p w q'.after hn (hw.not_mem '>' (by decide))
    (hafter ▸ hread.after)
  have hl : l = [] := by
    rcases hgoes with ⟨hl, _⟩ | ⟨_, t, _, _, ht, _⟩
    · exact hl
    · cases l with
      | nil => rfl
      | cons c l =>
        have hfirst := hrepl.head
        rw [ht, List.cons_append, List.head?_cons, Option.some.injEq] at hfirst
        exact absurd (hfirst ▸ List.mem_append_right k List.mem_cons_self)
          (hw.not_mem '<' (by decide))
  subst hl
  rw [List.append_nil]
  refine ⟨q, hq, fun hfree => ⟨stays_before py h hfree.before, ?_⟩⟩
  rcases hgoes with ⟨_, hsame⟩ | ⟨_, t, v', _, ht, hv⟩
  · rw [hsame]
    exact hfree.after
  · have hnext : q'.after.head? = some '<' := by
      rw [hv, ← List.nil_append t, ← ht, List.head?_append_of_ne_nil _ hrepl.ne_nil]
      exact hrepl.head
    rw [hnext]
    exact no_word py '<' (by decide)

/-- A key behind the replacement of a bearer token stood in the text, up to the
case of letters. -/
theorem stays_bearer (py : Runtime) {p p' q' : Pos}
    (h : Stays py.word bearer bearer_repl '>' p p') {w : Str} (hw : KeyLike w)
    (hread : Reads p' w q') :
    ∃ w' q, List.Forall₂ Alike w' w ∧ Reads p w' q ∧ (Free py.word p q → Free py.word p' q') := by
  obtain ⟨n, hn, hafter⟩ := h.goes_on
  obtain ⟨k, l, rfl, hleaves⟩ := sub_prefix py.word bearer bearer_repl '>' (by decide) n p w
    q'.after hn (hw.not_mem '>' (by decide)) (hafter ▸ hread.after)
  have hblank : (k ++ l).getLast? ≠ some ' ' :=
    fun hlast => hw.not_mem ' ' (by decide) (List.mem_of_getLast? hlast)
  obtain ⟨m, q, hq, halike, _, hgo, _⟩ :=
    bearer_leaves py.word p k l q'.after hleaves (hw.not_mem '<' (by decide)) hblank
  refine ⟨k ++ m, q, List.rel_append (alike_refl k) halike, hq,
    fun hfree => ⟨stays_before py h hfree.before, ?_⟩⟩
  rcases hgo with hsame | ⟨_, halpha⟩ | ⟨hspace, _⟩
  · rw [hsame]
    exact hfree.after
  · have hafter' := hfree.after
    rw [word_of_any_alpha py _ halpha] at hafter'
    cases hafter'
  · rw [hspace]
    exact no_word py ' ' (by decide)

theorem alike_trans {a b c : Str} (h : List.Forall₂ Alike a b) (k : List.Forall₂ Alike b c) :
    List.Forall₂ Alike a c := by
  induction h generalizing c with
  | nil => exact k
  | cons hxy _ ih =>
    cases k with
    | cons hyz hrest =>
      refine .cons ?_ (ih hrest)
      rcases hxy with rfl | ⟨hx, _, hfold⟩
      · exact hyz
      · rcases hyz with rfl | ⟨_, hz, hfold'⟩
        · exact .inr ⟨hx, by assumption, hfold⟩
        · exact .inr ⟨hx, hz, hfold.trans hfold'⟩

theorem stays_key (py : Runtime) {x : Rx × Str} (hx : Kind py x) {p p' q' : Pos}
    (h : Stays py.word x.1 x.2 '>' p p') {w : Str} (hw : KeyLike w) (hread : Reads p' w q') :
    ∃ w' q, List.Forall₂ Alike w' w ∧ (Marker x.2 → w' = w) ∧ Reads p w' q ∧
      (Free py.word p q → Free py.word p' q') := by
  have hmarker : Marker x.2 → ∃ w' q, List.Forall₂ Alike w' w ∧ (Marker x.2 → w' = w) ∧
      Reads p w' q ∧ (Free py.word p q → Free py.word p' q') := by
    intro hrepl
    obtain ⟨q, hq, hfree⟩ := stays_marker py hrepl h hw hread
    exact ⟨w, q, alike_refl w, fun _ => rfl, hq, hfree⟩
  cases hx with
  | email repl hrepl => exact hmarker hrepl
  | key before ok lo hi repl hkey => exact hmarker hkey.marker
  | bearer =>
    obtain ⟨w', q, halike, hq, hfree⟩ := stays_bearer py h hw hread
    exact ⟨w', q, halike, fun hrepl => absurd hrepl.head (by decide), hq, hfree⟩

/-- A key that is there after substitutions stood in the text, up to the case of
letters; between no word characters there, it still is. -/
theorem passes_key (py : Runtime) (ps : List (Rx × Str)) (hps : ∀ x ∈ ps, Kind py x)
    {p p' q' : Pos} (h : Passes py.word '>' ps p p') {w : Str} (hw : KeyLike w)
    (hread : Reads p' w q') :
    ∃ w' q, List.Forall₂ Alike w' w ∧ ((∀ x ∈ ps, Marker x.2) → w' = w) ∧ Reads p w' q ∧
      (Free py.word p q → Free py.word p' q') := by
  induction ps generalizing p with
  | nil =>
    cases h
    exact ⟨w, q', alike_refl w, fun _ => rfl, hread, id⟩
  | cons x ps ih =>
    obtain ⟨hx, hps⟩ := List.forall_mem_cons.mp hps
    obtain ⟨m, hstays, hrest⟩ := h
    obtain ⟨w₁, q₁, halike₁, hsame₁, hread₁, hfree₁⟩ := ih hps hrest
    obtain ⟨w₂, q₂, halike₂, hsame₂, hread₂, hfree₂⟩ :=
      stays_key py hx hstays (hw.alike halike₁) hread₁
    refine ⟨w₂, q₂, alike_trans halike₂ halike₁, ?_, hread₂, fun h => hfree₁ (hfree₂ h)⟩
    intro hmarkers
    obtain ⟨hmarker, hmarkers⟩ := List.forall_mem_cons.mp hmarkers
    rw [hsame₂ hmarker, hsame₁ hmarkers]

theorem ascii_of_key (c : Char) (hc : key_char c = true) : isAscii c = true := by
  simp only [key_char, oneOf, List.mem_cons, List.not_mem_nil, or_false, Bool.or_eq_true,
    decide_eq_true_eq, Char.isAlphanum] at hc
  rcases hc with (halpha | hdigit) | rfl | rfl
  · exact ascii_of_alpha c halpha
  · simp only [Char.isDigit, Bool.and_eq_true, decide_eq_true_eq, UInt32.le_iff_toNat_le,
      ge_iff_le] at hdigit
    have hval : c.toNat = c.val.toNat := rfl
    have hnine : '9'.val.toNat = 57 := rfl
    rw [isAscii, decide_eq_true_eq]
    omega
  · decide
  · decide

/-- A key character is a word character, the hyphen apart. -/
theorem word_of_key (py : Runtime) (c : Char) (hc : key_char c = true) (hne : c ≠ '-') :
    py.word c = true := by
  rw [py.word_ascii c (ascii_of_key c hc)]
  simp only [key_char, oneOf, List.mem_cons, List.not_mem_nil, or_false, Bool.or_eq_true,
    decide_eq_true_eq] at hc
  rcases hc with halnum | rfl | rfl
  · rw [halnum]
    rfl
  · decide
  · exact absurd rfl hne

theorem KeyLike.last_word (py : Runtime) {w : Str} (hw : KeyLike w) :
    w.getLast?.any py.word = true := by
  rw [List.getLast?_eq_some_getLast hw.ne_nil, Option.any_some]
  refine word_of_key py _ (hw.chars _ (List.getLast_mem hw.ne_nil)) ?_
  intro hlast
  exact hw.last (by rw [List.getLast?_eq_some_getLast hw.ne_nil, hlast])

theorem free_boundaries (py : Runtime) {p q : Pos} {w : Str} (hw : KeyLike w)
    (hread : Reads p w q) (hfree : Free py.word p q) :
    atBoundary py.word p = true ∧ atBoundary py.word q = true := by
  obtain ⟨hfirst, hlast⟩ := head_of_reads hread hw.ne_nil
  constructor
  · rw [atBoundary, hfree.before, hfirst, word_of_any_alpha py _ hw.first]
    rfl
  · rw [atBoundary, hfree.after, hlast, hw.last_word py]
    rfl

/-- The turn of a pattern in a run of substitutions: before it or behind it every
replacement begins with a bracket. -/
structure Turn (py : Runtime) (x : Rx × Str) (ps : List (Rx × Str)) : Prop where
  split : ∃ earlier later, ps = earlier ++ x :: later ∧
    ((∀ y ∈ earlier, Marker y.2) ∨ ∀ y ∈ later, Marker y.2)

/-- A key between no word characters does not come through. -/
theorem passes_no_key (py : Runtime) {before : Str} {ok : Char → Bool} {lo : ℕ} {hi : Option ℕ}
    {repl : Str} (hpattern : KeyPattern before ok lo hi repl) (ps : List (Rx × Str)) (hps : ∀ x ∈ ps, Kind py x)
    (hturn : Turn py (token before ok lo hi, repl) ps) {p q p' q' : Pos} {w : Str}
    (hkey : KeyText before ok lo hi w) (hw : KeyLike w) (hread : Reads p w q)
    (hfree : Free py.word p q) (hpass : Passes py.word '>' ps p p') : ¬ Reads p' w q' := by
  intro hread'
  obtain ⟨earlier, later, rfl, hmarkers⟩ := hturn.split
  obtain ⟨m, hearlier, m', hstays, hlater⟩ := (passes_append py.word '>' _ _ p p').mp hpass
  have hkinds := List.forall_mem_append.mp hps
  obtain ⟨w₁, q₁, halike₁, hsame₁, hread₁, _⟩ :=
    passes_key py later (List.forall_mem_cons.mp hkinds.2).2 hlater hw hread'
  obtain ⟨q₂, hread₂, _⟩ := stays_marker py hpattern.marker hstays (hw.alike halike₁) hread₁
  obtain ⟨w₃, q₃, halike₃, hsame₃, hread₃, hfree₃⟩ :=
    passes_key py earlier hkinds.1 hearlier (hw.alike halike₁) hread₂
  -- the text reads `w` there and nothing else of that length
  obtain ⟨rfl, rfl⟩ := reads_unique hread hread₃
    (halike₃.length_eq.trans halike₁.length_eq).symm
  have hturn_key : w₁ = w := by
    rcases hmarkers with hmarkers | hmarkers
    · exact (hsame₃ hmarkers).symm
    · exact hsame₁ hmarkers
  rw [hturn_key] at hread₂
  obtain ⟨hstart, hend⟩ := free_boundaries py hw hread₂ (hfree₃ hfree)
  have hdescribes := hpattern.describes py.word
  have hends := (hdescribes.ends_iff m q₂).mpr ⟨w, hkey, hread₂, fun _ => ⟨hstart, hend⟩⟩
  obtain ⟨r, htaken⟩ := describes_taken py.word hdescribes hends
  exact hstays.kept r htaken

end AigentSquad.KeyRemoval
